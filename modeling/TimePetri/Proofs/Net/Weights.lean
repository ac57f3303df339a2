import TimePetri.Proofs.Net.Cells
import TimePetri.Proofs.Net.Declared
import TimePetri.Proofs.Script.Edges

namespace TimePetri

open Script

def Cell.join (cell : Cell) (edge : Edge) : Cell := cell.connect edge.use edge.weight

def Cell.touch (place transition : String) (cell : Cell) (edge : Edge) : Cell :=
  if edge.place = place ∧ edge.transition = transition then cell.join edge else cell

namespace Net

variable {net next : Net} {strict : Bool} {clause : Clause} {place transition : String}

theorem apply_cell (sound : net.Sound) (measured : clause.Measured) (applied : net.apply strict clause = .ok next)
    (place transition : String) :
    next.cell place transition = clause.edges.foldl (Cell.touch place transition) (net.cell place transition) := by
  cases clause with
  | netName name => cases applied; rfl
  | transition name => cases applied; exact ensureTransition_cell sound name place transition
  | transitionLabel name label => cases applied; exact ensureTransition_cell sound name place transition
  | interval name interval token =>
    obtain ⟨current,result,_,_,rfl⟩ := narrow_parts interval token applied
    exact ensureTransition_cell sound name place transition
  | place name => cases applied; exact ensurePlace_cell sound name place transition
  | placeLabel name label => cases applied; exact ensurePlace_cell sound name place transition
  | marking name count token =>
    obtain ⟨initial,_,same⟩ := bind_ok.mp applied
    cases same
    exact ensurePlace_cell sound name place transition
  | arc p t use weight token =>
    have placed := ensurePlace_sound sound p
    have placeKnown : ((net.ensurePlace p).2.ensureTransition t).2.places[(net.ensurePlace p).1]? = some p := by
      rw [ensureTransition_places]
      exact ensurePlace_number net p
    have cells := connect_cell (ensureTransition_sound placed t) (ensureTransition_number _ _) placeKnown measured
      (mapError_ok.mp applied) place transition
    rw [ensureTransition_cell placed,ensurePlace_cell sound,← Int.toNat_of_nonneg measured] at cells
    exact cells
  | mention token =>
    unfold apply at applied
    dsimp only at applied
    split at applied
    · cases applied
    · cases applied; exact ensureTransition_cell sound token.text place transition
  | priority first order second => cases order <;> cases applied <;> rfl
  | note text => cases applied; rfl

theorem addAt_held (sound : net.Sound) {p : Nat} {name : String} {count : Int64} {initial : Marking}
    (known : net.places[p]? = some name) (added : net.initial.addAt p count = .ok initial) (place : String) :
    { net with initial }.held place = net.held place + if name = place then count.toInt else 0 := by
  have number := number_same sound.placeNames known place
  change (net.places.idxOf? place).elim 0 initial.count = (net.places.idxOf? place).elim 0 net.initial.count + _
  cases found : net.places.idxOf? place with
  | none =>
    have other : name ≠ place := fun same => by rw [number.mpr same] at found; cases found
    simp [other]
  | some q =>
    rw [found,Option.some.injEq] at number
    simp only [Option.elim_some,Marking.addAt_count added,number]

theorem apply_held (sound : net.Sound) (measured : clause.Measured) (applied : net.apply strict clause = .ok next)
    (place : String) : next.held place = net.held place + clause.tokensAt place := by
  cases clause with
  | netName name => cases applied; exact (Int.add_zero _).symm
  | transition name => cases applied; exact (ensureTransition_held net name place).trans (Int.add_zero _).symm
  | transitionLabel name label => cases applied; exact (ensureTransition_held net name place).trans (Int.add_zero _).symm
  | interval name interval token =>
    obtain ⟨current,result,_,_,rfl⟩ := narrow_parts interval token applied
    exact (ensureTransition_held net name place).trans (Int.add_zero _).symm
  | place name => cases applied; exact (ensurePlace_held sound name place).trans (Int.add_zero _).symm
  | placeLabel name label => cases applied; exact (ensurePlace_held sound name place).trans (Int.add_zero _).symm
  | marking name count token =>
    obtain ⟨initial,added,same⟩ := bind_ok.mp applied
    cases same
    have held := addAt_held (ensurePlace_sound sound name) (ensurePlace_number net name) (mapError_ok.mp added) place
    rw [ensurePlace_held sound,← Int.toNat_of_nonneg measured] at held
    refine held.trans (congrArg (net.held place + ·) ?_)
    exact (apply_ite Nat.cast _ _ _).symm
  | arc p t use weight token =>
    have placed := ensurePlace_sound sound p
    obtain ⟨row,_,rfl⟩ := connect_parts (ensureTransition_sound placed t) (ensureTransition_inside _ _)
      (mapError_ok.mp applied)
    have held := (ensureTransition_held (net.ensurePlace p).2 t place).trans (ensurePlace_held sound p place)
    exact held.trans (Int.add_zero _).symm
  | mention token =>
    unfold apply at applied
    dsimp only at applied
    split at applied
    · cases applied
    · cases applied; exact (ensureTransition_held net token.text place).trans (Int.add_zero _).symm
  | priority first order second => cases order <;> cases applied <;> exact (Int.add_zero _).symm
  | note text => cases applied; exact (Int.add_zero _).symm

theorem empty_cell (place transition : String) : empty.cell place transition = ⟨0,0,0,0⟩ := by
  simp [cell,transitionIndex?,empty,Cell.empty]

theorem empty_held (place : String) : empty.held place = 0 := by simp [held,placeIndex?,empty]

theorem run_weights (clauses : List Clause) (measured : ∀ clause ∈ clauses, clause.Measured)
    (applied : clauses.foldlM (apply strict) empty = .ok net) (place transition : String) :
    net.cell place transition = (clauses.flatMap Clause.edges).foldl (Cell.touch place transition) ⟨0,0,0,0⟩ ∧
      net.held place = (clauses.map (Clause.tokensAt place)).sum := by
  refine run_induction (motive := fun done net =>
    net.cell place transition = (done.flatMap Clause.edges).foldl (Cell.touch place transition) ⟨0,0,0,0⟩ ∧
      net.held place = (done.map (Clause.tokensAt place)).sum) ?_ ?_ clauses measured applied
  · exact ⟨empty_cell place transition,empty_held place⟩
  · intro done net clause next sound holds measured applied
    obtain ⟨cells,helds⟩ := holds
    constructor
    · rw [apply_cell sound measured applied,cells,List.flatMap_append,List.foldl_append,List.flatMap_singleton]
    · rw [apply_held sound measured applied,helds,List.map_append,List.sum_append]
      simp

end Net

namespace Script

variable {edges : List Edge} {place transition : String}

theorem touch_filter (edges : List Edge) (place transition : String) (cell : Cell) :
    edges.foldl (Cell.touch place transition) cell =
      (edges.filter fun edge => edge.place = place && edge.transition = transition).foldl Cell.join cell := by
  rw [List.foldl_filter]
  refine congrArg (fun step => edges.foldl step cell) ?_
  funext cell edge
  simp [Cell.touch]

theorem least_pair (first second : Nat) (rest : List Nat) :
    leastOf (first :: second :: rest) =
      leastOf ((if second = 0 then first else if first = 0 then second else min first second) :: rest) := by
  unfold leastOf
  by_cases noFirst : first = 0
  · by_cases noSecond : second = 0 <;> simp [noFirst,noSecond]
  · by_cases noSecond : second = 0
    · simp [noFirst,noSecond]
    · have nonzero : min first second ≠ 0 := by omega
      cases least : (rest.filter fun weight => !decide (weight = 0)).min? <;>
        simp [noFirst,noSecond,List.min?_cons,least,Nat.min_assoc]

theorem join_weights (edges : List Edge) (guard cap : Nat) (pre delta : Int) :
    edges.foldl Cell.join ⟨guard,cap,pre,delta⟩ =
      ⟨(edges.foldl Edge.ask guard : Nat),(leastOf (cap :: weightsOf .inhibit edges) : Nat),
        pre - (weightsOf .consume edges).sum,
        delta + (weightsOf .produce edges).sum - (weightsOf .consume edges).sum⟩ := by
  induction edges generalizing guard cap pre delta with
  | nil => by_cases zero : cap = 0 <;> simp [weightsOf,leastOf,zero]
  | cons edge rest ih =>
    obtain ⟨p,t,use,weight⟩ := edge
    cases use with
    | consume =>
      have joined : Cell.join ⟨guard,cap,pre,delta⟩ ⟨p,t,.consume,weight⟩ =
          ⟨(guard + weight : Nat),cap,pre - weight,delta - weight⟩ := rfl
      rw [List.foldl_cons,joined,ih]
      simp [weightsOf,Edge.ask]
      omega
    | produce =>
      have joined : Cell.join ⟨guard,cap,pre,delta⟩ ⟨p,t,.produce,weight⟩ = ⟨guard,cap,pre,delta + weight⟩ := rfl
      rw [List.foldl_cons,joined,ih]
      simp [weightsOf,Edge.ask]
      omega
    | test =>
      have joined : Cell.join ⟨guard,cap,pre,delta⟩ ⟨p,t,.test,weight⟩ = ⟨(max guard weight : Nat),cap,pre,delta⟩ := by
        have greater : ((max guard weight : Nat) : Int) = max (guard : Int) weight := by omega
        simp [Cell.join,Cell.connect,greater]
      rw [List.foldl_cons,joined,ih]
      simp [weightsOf,Edge.ask]
    | inhibit =>
      have joined : Cell.join ⟨guard,cap,pre,delta⟩ ⟨p,t,.inhibit,weight⟩ =
          ⟨guard,(if weight = 0 then cap else if cap = 0 then weight else min cap weight : Nat),pre,delta⟩ := by
        by_cases zero : weight = 0
        · simp [Cell.join,Cell.connect,zero]
        · by_cases absent : cap = 0
          · simp [Cell.join,Cell.connect,zero,absent]
          · have lesser : ((min cap weight : Nat) : Int) = min (cap : Int) weight := by omega
            simp [Cell.join,Cell.connect,zero,absent,lesser]
      rw [List.foldl_cons,joined,ih,← least_pair]
      simp [weightsOf,Edge.ask]

end Script

end TimePetri
