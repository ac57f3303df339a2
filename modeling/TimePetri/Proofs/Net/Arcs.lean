import Mathlib
import TimePetri.Proofs.Net.Weights

namespace TimePetri

open Script

-- An arrow that no arc follows may be written or left out.
def Script.trailing (written : Bool) : Option (List Link) := if written then some [] else none

-- One arc alone, declared at its transition or at its place.
inductive Script.Mirrored : Declaration → Declaration → Prop where
  | input (place transition : String) (mark : Option (Decoration × String)) (arrow : Bool) :
    Mirrored (.node (.transition transition) ⟨none,none,[⟨place,mark⟩],trailing arrow⟩)
      (.node (.place place) ⟨none,none,[],some [⟨transition,mark⟩]⟩)
  | output (place transition : String) (mark : Option (Decoration × String)) (arrow : Bool) :
    Mirrored (.node (.transition transition) ⟨none,none,[],some [⟨place,mark⟩]⟩)
      (.node (.place place) ⟨none,none,[⟨transition,mark⟩],trailing arrow⟩)

namespace Net

variable {net next : Net} {strict : Bool} {place transition : String} {declaration mirrored : Declaration}

theorem ensurePlace_again (sound : net.Sound) (place : String) :
    (net.ensurePlace place).2.ensurePlace place = net.ensurePlace place :=
  ensurePlace_known (ensurePlace_sound sound place).placeNames (ensurePlace_number net place)

theorem ensureTransition_again (sound : net.Sound) (transition : String) :
    (net.ensureTransition transition).2.ensureTransition transition = net.ensureTransition transition :=
  ensureTransition_known (ensureTransition_sound sound transition).transitionNames (ensureTransition_number net transition)

theorem ensure_apart (net : Net) (place transition : String) :
    (net.ensureTransition transition).2.ensurePlace place =
      ((net.ensurePlace place).1,((net.ensurePlace place).2.ensureTransition transition).2) := by
  unfold ensurePlace ensureTransition placeIndex? transitionIndex?
  cases foundTransition : net.transitions.idxOf? transition <;> cases foundPlace : net.places.idxOf? place <;>
    simp [addPlace,addTransition,foundTransition,foundPlace]

theorem ends_apply (sound : net.Sound) (use : Use) (weight : Int64) (first second : Token) :
    [Clause.transition transition,.arc place transition use weight first].foldlM (apply strict) net = .ok next ↔
      [Clause.place place,.arc place transition use weight second].foldlM (apply strict) net = .ok next := by
  have transitionFirst : net.apply strict (.transition transition) = .ok (net.ensureTransition transition).2 := rfl
  have placeFirst : net.apply strict (.place place) = .ok (net.ensurePlace place).2 := rfl
  simp only [List.foldlM_cons,List.foldlM_nil,transitionFirst,placeFirst,ok_bind,bind_pure,apply_arc,mapError_ok,
    ensure_apart net place,ensurePlace_again sound,ensureTransition_again (ensurePlace_sound sound place)]

theorem mirrored_apply (sound : net.Sound) (same : Mirrored declaration mirrored) :
    declaration.clauses.foldlM (apply strict) net = .ok next ↔ mirrored.clauses.foldlM (apply strict) net = .ok next := by
  cases same with
  | input place transition mark arrow => cases arrow <;> exact ends_apply sound _ _ _ _
  | output place transition mark arrow => cases arrow <;> exact ends_apply sound _ _ _ _

theorem declared_cell {text : String} {declarations : List Declaration}
    (declared : Declared strict text net declarations) (place transition : String) :
    net.cell place transition =
      let edges := edgesBetween declarations place transition
      ⟨(askedBy edges : Nat),(leastOf (weightsOf .inhibit edges) : Nat),-(weightsOf .consume edges).sum,
        (weightsOf .produce edges).sum - (weightsOf .consume edges).sum⟩ := by
  obtain ⟨cells,_⟩ := run_weights _ declared.measured declared.applied place transition
  have joined := join_weights (edgesBetween declarations place transition) 0 0 0 0
  rw [declarations_edges _ declared.readable,touch_filter] at cells
  refine cells.trans (joined.trans ?_)
  simp [askedBy,leastOf]

theorem declared_held {text : String} {declarations : List Declaration}
    (declared : Declared strict text net declarations) (place : String) :
    net.held place = initialTokens declarations place := by
  obtain ⟨_,helds⟩ := run_weights _ declared.measured declared.applied place ""
  rwa [declarations_tokensAt _ declared.readable] at helds

theorem parse_arcs (strict : Bool) (text : String) (net : Net) (parsed : (parse strict text).value = .ok net) :
    ∃ declarations, Spells declarations text ∧ (∀ others, Spells others text → others = declarations) ∧
      (∀ (t p : Nat) (transition place : String), net.transitions[t]? = some transition → net.places[p]? = some place →
        ∃ guard cap pre delta : Marking, net.guard[t]? = some guard ∧ net.cap[t]? = some cap ∧ net.pre[t]? = some pre ∧
          net.delta[t]? = some delta ∧
          let edges := edgesBetween declarations place transition
          pre.count p = -(weightsOf .consume edges).sum ∧
            delta.count p = (weightsOf .produce edges).sum - (weightsOf .consume edges).sum ∧
            cap.count p = leastOf (weightsOf .inhibit edges) ∧ guard.count p = askedBy edges) ∧
      (∀ (p : Nat) (place : String), net.places[p]? = some place → net.initial.count p = initialTokens declarations place) ∧
      ∀ front back declaration mirrored other net', declarations = front ++ declaration :: back →
        Mirrored declaration mirrored → Spells (front ++ mirrored :: back) other →
          (parse strict other).value = .ok net' → net' = net := by
  obtain ⟨declarations,declared⟩ := parse_declared parsed
  have sound := declared.sound
  refine ⟨declarations,declared.spells,fun others spells => spells_unique spells declared.spells,?_,?_,?_⟩
  · intro t p transition place transitionKnown placeKnown
    have inside : t < net.transitions.size := (Array.getElem?_eq_some_iff.mp transitionKnown).1
    have cells := declared_cell declared place transition
    rw [cell_known sound transitionKnown placeKnown] at cells
    refine ⟨_,_,_,_,default_found net.guard .empty (sound.tabled.guard ▸ inside),
      default_found net.cap .empty (sound.tabled.cap ▸ inside),default_found net.pre .empty (sound.tabled.pre ▸ inside),
      default_found net.delta .empty (sound.tabled.delta ▸ inside),?_⟩
    exact ⟨congrArg Cell.pre cells,congrArg Cell.delta cells,congrArg Cell.cap cells,congrArg Cell.guard cells⟩
  · intro p place placeKnown
    rw [← held_known sound placeKnown,declared_held declared]
  · intro front back declaration mirrored other net' split same spells parsedOther
    obtain ⟨others,declaredOther⟩ := parse_declared parsedOther
    cases spells_unique declaredOther.spells spells
    subst split
    have here := declared.applied
    have there := declaredOther.applied
    simp only [List.flatMap_append,List.flatMap_cons,List.foldlM_append] at here there
    obtain ⟨before,reached,here⟩ := bind_ok.mp here
    obtain ⟨_,reachedOther,there⟩ := bind_ok.mp there
    cases reached.symm.trans reachedOther
    have sound := run_sound _ (fun clause member => declared.measured clause (by simp [member])) reached
    obtain ⟨after,applied,here⟩ := bind_ok.mp here
    obtain ⟨_,appliedOther,there⟩ := bind_ok.mp there
    cases ((mirrored_apply sound same).mp applied).symm.trans appliedOther
    exact Except.ok.inj (there.symm.trans here)

def mixedDeclarations : List Declaration :=
  [.node (.transition "t") ⟨none,none,[⟨"p",some (.plain,"2")⟩,⟨"p",some (.read,"4")⟩,⟨"p",none⟩],some []⟩,
    .node (.place "p") ⟨none,some "2",[⟨"t",some (.plain,"5")⟩],
      some [⟨"t",some (.inhibitor,"7")⟩,⟨"t",some (.inhibitor,"0")⟩,⟨"t",some (.inhibitor,"3")⟩]⟩,
    .node (.place "p") ⟨none,some "4",[],none⟩,.node (.transition "t") ⟨none,none,[⟨"p",some (.read,"1")⟩],some []⟩]

def mixed : Net :=
  ⟨"",#["p"],#[""],#["t"],#[""],#[.unconstrained],#[Marking.empty.set 0 5],#[Marking.empty.set 0 3],
    #[Marking.empty.set 0 (-3)],#[Marking.empty.set 0 2],Marking.empty.set 0 6,#[[]]⟩

def mixedText : String := "tr t p*2 p?4 p ->\npl p (2) t*5 -> t?-7 t?-0 t?-3\npl p (4) tr t p?1 ->"

def turnedText : String := "tr t p*2 p?4 p ->\npl p (2) t*5 -> t?-7 t?-0 t?-3\npl p (4) pl p -> t?1"

theorem parse_arcs_mixed :
    Spells mixedDeclarations mixedText ∧
      (∃ guard cap pre delta : Marking, mixed.guard[0]? = some guard ∧ mixed.cap[0]? = some cap ∧
        mixed.pre[0]? = some pre ∧ mixed.delta[0]? = some delta ∧
        pre.count 0 = -3 ∧ delta.count 0 = 2 ∧ cap.count 0 = 3 ∧ guard.count 0 = 5) ∧
      mixed.initial.count 0 = 6 ∧ ∃ net, (parse false turnedText).value = .ok net ∧ net = mixed := by
  have parsed : (parse false mixedText).value = .ok mixed := by cbv
  have spells : Spells mixedDeclarations mixedText := by cbv
  have turned : Spells (mixedDeclarations.take 3 ++ [.node (.place "p") ⟨none,none,[],some [⟨"t",some (.read,"1")⟩]⟩])
      turnedText := by cbv
  have accepted : (parse false turnedText).value.toOption.isSome = true := by cbv
  obtain ⟨declarations,_,unique,cells,helds,mirrored⟩ := parse_arcs _ _ _ parsed
  cases unique _ spells
  refine ⟨spells,cells 0 0 "t" "p" rfl rfl,helds 0 "p" rfl,?_⟩
  cases read : (parse false turnedText).value with
  | error reason => rw [read] at accepted; cases accepted
  | ok net => exact ⟨net,rfl,mirrored _ [] _ _ _ net rfl (.input "p" "t" _ true) turned read⟩

end Net

end TimePetri
