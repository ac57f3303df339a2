import TimePetri.Proofs.Net.Arcs
import TimePetri.Proofs.Net.Ranked
import TimePetri.Proofs.Net.Time
import TimePetri.Proofs.Net.WellFormed
import TimePetri.Proofs.Script.Joined

namespace TimePetri

open Script Priority

namespace Script

variable {declarations others : List Declaration} {edges further : List Edge}

def asking (edges : List Edge) : List Edge := edges.filter fun edge => edge.use = .test || edge.use = .consume

-- Arcs that ask for the same in whichever order they stand, or that stand in one order.
def AskAlike (edges further : List Edge) : Prop :=
  (∀ edge ∈ edges, edge.use ≠ .consume) ∨ (∀ edge ∈ edges, edge.use ≠ .test) ∨ asking edges = asking further

theorem edges_permuted (same : declarations.Perm others) (place transition : String) :
    (edgesBetween declarations place transition).Perm (edgesBetween others place transition) :=
  (same.flatMap_right Declaration.edges).filter _

theorem weights_permuted (same : edges.Perm further) (use : Use) : (weightsOf use edges).Perm (weightsOf use further) :=
  (same.filter _).map _

theorem least_permuted {weights other : List Nat} (same : weights.Perm other) : leastOf weights = leastOf other := by
  have least : (weights.filter (· ≠ 0)).min? = (other.filter (· ≠ 0)).min? := by
    refine Option.ext fun least => ?_
    simp only [List.min?_eq_some_iff,(same.filter (· ≠ 0)).mem_iff]
  rw [leastOf,leastOf,least]

theorem initial_permuted (same : declarations.Perm others) (place : String) :
    initialTokens declarations place = initialTokens others place := (same.map _).sum_nat

theorem asked_asking (edges : List Edge) : askedBy edges = askedBy (asking edges) := by
  unfold askedBy asking
  rw [List.foldl_filter]
  refine congrArg (fun step => edges.foldl step 0) ?_
  funext asked edge
  cases use : edge.use <;> simp [Edge.ask,use]

theorem ask_greatest {edge : Edge} (plain : edge.use ≠ .consume) (asked : Nat) :
    edge.ask asked = max asked (if edge.use = .test then edge.weight else 0) := by
  unfold Edge.ask
  cases use : edge.use <;> simp [use] at plain ⊢

theorem ask_sum {edge : Edge} (plain : edge.use ≠ .test) (asked : Nat) :
    edge.ask asked = asked + if edge.use = .consume then edge.weight else 0 := by
  unfold Edge.ask
  cases use : edge.use <;> simp [use] at plain ⊢

theorem asked_permuted (same : edges.Perm further) (alike : AskAlike edges further) : askedBy edges = askedBy further := by
  rcases alike with plain | plain | same
  · refine same.foldl_eq' (fun first inEdges second inOthers asked => ?_) 0
    simp only [ask_greatest (plain first inEdges),ask_greatest (plain second inOthers)]
    exact max_right_comm _ _ _
  · refine same.foldl_eq' (fun first inEdges second inOthers asked => ?_) 0
    simp only [ask_sum (plain first inEdges),ask_sum (plain second inOthers)]
    exact Nat.add_right_comm _ _ _
  · rw [asked_asking edges,same,← asked_asking]

-- A reading arc behind an ordinary input asks for less than one before it.
example : askedBy [⟨"p","t",.consume,2⟩,⟨"p","t",.test,4⟩] = 4 ∧ askedBy [⟨"p","t",.test,4⟩,⟨"p","t",.consume,2⟩] = 6 := by
  decide

end Script

namespace Net

def countAt (rows : Array Marking) (t p : Nat) : Option Int := rows[t]?.map (·.count p)

-- Nets that differ in the numbers of places and transitions alone, as far as is seen of
-- them apart from guards.
structure Renumbered (net other : Net) : Prop where
  places : net.places.toList.Perm other.places.toList
  transitions : net.transitions.toList.Perm other.transitions.toList
  within : (∀ m ∈ net.markings, m.Within net.places.size) ∧ ∀ m ∈ other.markings, m.Within other.places.size
  initial : ∀ (p q : Nat) (place : String), net.places[p]? = some place → other.places[q]? = some place →
    net.initial.count p = other.initial.count q
  time : ∀ (t u : Nat) (name : String), net.transitions[t]? = some name → other.transitions[u]? = some name →
    ∃ interval, net.time[t]? = some interval ∧ other.time[u]? = some interval
  weights : ∀ rows ∈ [cap,pre,delta], ∀ (t u : Nat) (name : String), net.transitions[t]? = some name →
    other.transitions[u]? = some name → ∀ (p q : Nat) (place : String), net.places[p]? = some place →
      other.places[q]? = some place → ∃ n, countAt (rows net) t p = some n ∧ countAt (rows other) u q = some n
  prio : ∀ (t u : Nat) (name : String), net.transitions[t]? = some name → other.transitions[u]? = some name →
    ∃ lower below, net.prio[t]? = some lower ∧ other.prio[u]? = some below ∧
      (∀ v ∈ lower, v < net.transitions.size) ∧ (∀ w ∈ below, w < other.transitions.size) ∧
      ∀ (v w : Nat) (beneath : String), net.transitions[v]? = some beneath → other.transitions[w]? = some beneath →
        (v ∈ lower ↔ w ∈ below)

variable {net other : Net} {strict : Bool} {text : String} {declarations others : List Declaration} {t p : Nat}
  {name place : String}

theorem countAt_row (sound : net.Sound) (inside : t < net.transitions.size) (p : Nat) :
    countAt net.guard t p = some ((net.row t).guard.count p) ∧ countAt net.cap t p = some ((net.row t).cap.count p) ∧
      countAt net.pre t p = some ((net.row t).pre.count p) ∧ countAt net.delta t p = some ((net.row t).delta.count p) := by
  unfold countAt
  rw [default_found net.guard .empty (sound.tabled.guard ▸ inside),default_found net.cap .empty (sound.tabled.cap ▸ inside),
    default_found net.pre .empty (sound.tabled.pre ▸ inside),default_found net.delta .empty (sound.tabled.delta ▸ inside)]
  exact ⟨rfl,rfl,rfl,rfl⟩

theorem names_permuted {names further : List String} (distinct : names.Nodup) (others : further.Nodup)
    {given shuffled : List String} (same : given.Perm shuffled) (first : names = given.eraseDups)
    (second : further = shuffled.eraseDups) : names.Perm further := by
  refine (List.perm_ext_iff_of_nodup distinct others).mpr fun name => ?_
  rw [first,second,List.mem_eraseDups,List.mem_eraseDups]
  exact same.mem_iff

theorem lower_known (sound : net.Sound) (known : net.transitions[t]? = some name) :
    net.prio[t]? = some (lowerOf net.prio t) :=
  default_found net.prio [] (sound.tabled.prio ▸ (Array.getElem?_eq_some_iff.mp known).1)

theorem lower_inside (sound : net.Sound) (t : Nat) : ∀ u ∈ lowerOf net.prio t, u < net.transitions.size :=
  fun u below => sound.tabled.prio ▸ (inTable_exact _).mp sound.inTable t u below

theorem timeOf_permuted (one : Declared strict text net declarations) {strict' : Bool} {text' : String}
    (two : Declared strict' text' other others) (same : declarations.Perm others) (name : String) :
    net.timeOf name = other.timeOf name := by
  refine Interval.stored_unique (timeOf_stored one.sound name) (timeOf_stored two.sound name) fun x => ?_
  rw [run_timed one.measured one.applied name x,run_timed two.measured two.applied name x]
  simp only [intervalsOf,((same.flatMap_right Declaration.clauses).filterMap (Clause.interval? name)).mem_iff]

theorem cell_permuted (one : Declared strict text net declarations) {strict' : Bool} {text' : String}
    (two : Declared strict' text' other others) (same : declarations.Perm others) (place transition : String) :
    (net.cell place transition).cap = (other.cell place transition).cap ∧
      (net.cell place transition).pre = (other.cell place transition).pre ∧
      (net.cell place transition).delta = (other.cell place transition).delta ∧
      (AskAlike (edgesBetween declarations place transition) (edgesBetween others place transition) →
        (net.cell place transition).guard = (other.cell place transition).guard) := by
  have edges := edges_permuted same place transition
  have sums (use : Use) := (weights_permuted edges use).sum_nat
  rw [declared_cell one,declared_cell two]
  dsimp only
  rw [least_permuted (weights_permuted edges .inhibit),sums .consume,sums .produce]
  exact ⟨rfl,rfl,rfl,fun alike => congrArg Nat.cast (asked_permuted edges alike)⟩

theorem declared_permuted (one : Declared strict text net declarations) {strict' : Bool} {text' : String}
    (two : Declared strict' text' other others) (same : declarations.Perm others) : Renumbered net other := by
  have soundOne := one.sound
  have soundTwo := two.sound
  have names := declared_names one
  have names' := declared_names two
  constructor
  case places =>
    exact names_permuted soundOne.placeNames soundTwo.placeNames (same.flatMap_right _) names.1 names'.1
  case transitions =>
    exact names_permuted soundOne.transitionNames soundTwo.transitionNames (same.flatMap_right _) names.2 names'.2
  case within => exact ⟨markings_within soundOne,markings_within soundTwo⟩
  case initial =>
    intro p q place known known'
    rw [← held_known soundOne known,← held_known soundTwo known',declared_held one,declared_held two,initial_permuted same]
  case time =>
    intro t u name known known'
    refine ⟨net.timeOf name,timeOf_known soundOne known,?_⟩
    rw [timeOf_permuted one two same]
    exact timeOf_known soundTwo known'
  case weights =>
    intro rows table t u name known known' p q place placeKnown placeKnown'
    obtain ⟨capSame,preSame,deltaSame,_⟩ := cell_permuted one two same place name
    rw [cell_known soundOne known placeKnown,cell_known soundTwo known' placeKnown'] at capSame preSame deltaSame
    obtain ⟨_,capOne,preOne,deltaOne⟩ := countAt_row soundOne (Array.getElem?_eq_some_iff.mp known).1 p
    obtain ⟨_,capTwo,preTwo,deltaTwo⟩ := countAt_row soundTwo (Array.getElem?_eq_some_iff.mp known').1 q
    simp only [List.mem_cons,List.not_mem_nil,or_false] at table
    rcases table with rfl | rfl | rfl
    · exact ⟨_,capOne,capTwo.trans (congrArg some capSame.symm)⟩
    · exact ⟨_,preOne,preTwo.trans (congrArg some preSame.symm)⟩
    · exact ⟨_,deltaOne,deltaTwo.trans (congrArg some deltaSame.symm)⟩
  case prio =>
    intro t u name known known'
    refine ⟨lowerOf net.prio t,lowerOf other.prio u,lower_known soundOne known,lower_known soundTwo known',
      lower_inside soundOne t,lower_inside soundTwo u,?_⟩
    intro v w beneath beneathKnown beneathKnown'
    calc v ∈ lowerOf net.prio t ↔ net.Ranks name beneath := (ranks_known soundOne known beneathKnown).symm
      _ ↔ ∃ declaration ∈ declarations, declaration.Ranks name beneath := declared_ranks one _ _
      _ ↔ ∃ declaration ∈ others, declaration.Ranks name beneath := by simp only [same.mem_iff]
      _ ↔ other.Ranks name beneath := (declared_ranks two _ _).symm
      _ ↔ w ∈ lowerOf other.prio u := ranks_known soundTwo known' beneathKnown'

theorem parse_permuted (strict : Bool) :
    (∀ paragraphs : List Paragraph, Spells (paragraphs.map Paragraph.declaration) (Paragraph.join paragraphs)) ∧
      ∀ declarations others : List Declaration, declarations.Perm others → ∀ text shuffled : String,
        Spells declarations text → Spells others shuffled → ∀ net other : Net,
        (parse strict text).value = .ok net → (parse strict shuffled).value = .ok other →
        Renumbered net other ∧ ∀ (t u : Nat) (name : String), net.transitions[t]? = some name →
          other.transitions[u]? = some name → ∀ (p q : Nat) (place : String), net.places[p]? = some place →
            other.places[q]? = some place →
            AskAlike (edgesBetween declarations place name) (edgesBetween others place name) →
            ∃ n, countAt net.guard t p = some n ∧ countAt other.guard u q = some n := by
  refine ⟨join_spells,fun declarations others same text shuffled spells spells' net other parsed parsed' => ?_⟩
  obtain ⟨_,one⟩ := parse_declared parsed
  obtain ⟨_,two⟩ := parse_declared parsed'
  cases spells_unique one.spells spells
  cases spells_unique two.spells spells'
  refine ⟨declared_permuted one two same,fun t u name known known' p q place placeKnown placeKnown' alike => ?_⟩
  have guard := (cell_permuted one two same place name).2.2.2 alike
  rw [cell_known one.sound known placeKnown,cell_known two.sound known' placeKnown'] at guard
  refine ⟨_,(countAt_row one.sound (Array.getElem?_eq_some_iff.mp known).1 p).1,?_⟩
  rw [(countAt_row two.sound (Array.getElem?_eq_some_iff.mp known').1 q).1]
  exact congrArg some guard.symm

def arcParagraphs : List Paragraph :=
  [⟨.node (.transition "t") ⟨none,some "[ 1 5 ]",[⟨"p",some (.plain,"2")⟩],some [⟨"q",none⟩]⟩,
      "tr t [1,5] p*2 -> q",by cbv⟩,
    ⟨.node (.place "p") ⟨none,some "3",[],some [⟨"t",some (.read,"4")⟩]⟩,
      "pl p (3)\n  -> t?4 # behind its input",by cbv⟩]

def otherParagraphs : List Paragraph :=
  [⟨.priority ["u"] .above ["t"],"pr u > t",by cbv⟩,
    ⟨.node (.transition "u") ⟨none,some "] 2 w [",[⟨"q",some (.inhibitor,"7")⟩,⟨"p",some (.read,"1")⟩],none⟩,
      "tr u ]2,w[ q?-7 p?1",by cbv⟩]

theorem parse_permuted_swapped : ∃ net other,
    (parse false (Paragraph.join (arcParagraphs ++ otherParagraphs))).value = .ok net ∧
      (parse false (Paragraph.join (otherParagraphs ++ arcParagraphs))).value = .ok other ∧
      (net.places,net.transitions) = (#["p","q"],#["t","u"]) ∧ (other.places,other.transitions) = (#["q","p"],#["u","t"]) ∧
      Renumbered net other ∧ countAt net.guard 0 0 = some 4 ∧ countAt other.guard 1 1 = some 4 := by
  have given : Paragraph.join (arcParagraphs ++ otherParagraphs) =
    "tr t [1,5] p*2 -> q\npl p (3)\n  -> t?4 # behind its input\npr u > t\ntr u ]2,w[ q?-7 p?1\n" := by cbv
  have turned : Paragraph.join (otherParagraphs ++ arcParagraphs) =
    "pr u > t\ntr u ]2,w[ q?-7 p?1\ntr t [1,5] p*2 -> q\npl p (3)\n  -> t?4 # behind its input\n" := by cbv
  have first : (fun net => (net.places,net.transitions,countAt net.guard 0 0)) <$>
      (parse false (Paragraph.join (arcParagraphs ++ otherParagraphs))).value = .ok (#["p","q"],#["t","u"],some 4) := by
    rw [given]
    cbv
  have second : (fun other => (other.places,other.transitions)) <$>
      (parse false (Paragraph.join (otherParagraphs ++ arcParagraphs))).value = .ok (#["q","p"],#["u","t"]) := by
    rw [turned]
    cbv
  obtain ⟨net,parsed,names⟩ := map_ok.mp first
  obtain ⟨other,swapped,others⟩ := map_ok.mp second
  obtain ⟨places,transitions,guard⟩ : net.places = #["p","q"] ∧ net.transitions = #["t","u"] ∧
      countAt net.guard 0 0 = some 4 := by simpa using names
  obtain ⟨places',transitions'⟩ : other.places = #["q","p"] ∧ other.transitions = #["u","t"] := by simpa using others
  obtain ⟨spells,permuted⟩ := parse_permuted false
  obtain ⟨renumbered,guards⟩ := permuted _ _ (List.perm_append_comm.map Paragraph.declaration) _ _
    (spells (arcParagraphs ++ otherParagraphs)) (spells (otherParagraphs ++ arcParagraphs)) net other parsed swapped
  refine ⟨net,other,parsed,swapped,by rw [places,transitions],others,renumbered,guard,?_⟩
  obtain ⟨n,here,there⟩ := guards 0 1 "t" (by rw [transitions]; rfl) (by rw [transitions']; rfl) 0 1 "p"
    (by rw [places]; rfl) (by rw [places']; rfl) (.inr (.inr (by decide)))
  exact there.trans (here.symm.trans guard)

end Net

end TimePetri
