import TimePetri.Reader.Weight

namespace TimePetri

open Script

namespace Reader

-- A loop whose every part uses up some of what is left to read comes to its end.
def iterate (body : σ → Reader → Except Halt (Turn σ β)) (shrinks : ∀ state r, Yields r.Lighter (body state r))
    (state : σ) (r : Reader) : Except Halt (β × Reader) :=
  match _ : body state r with
  | .error halt => .error halt
  | .ok (.done answer next) => .ok (answer,next)
  | .ok (.again later next) => iterate body shrinks later next
termination_by r.weight
decreasing_by
  rename_i taken
  have lighter := shrinks state r
  rw [taken] at lighter
  exact lighter

theorem iterate_ends {body : σ → Reader → Except Halt (Turn σ β)} (shrinks : ∀ state r, Yields r.Lighter (body state r))
    {bad : Halt → Prop} (inv : σ → Reader → Prop) (good : β → Reader → Prop)
    (keeps : ∀ state r, inv state r → Ends bad (Turn.Keeps inv good) (body state r)) (state : σ) (r : Reader)
    (first : inv state r) : Ends bad (fun (answer,last) => good answer last) (iterate body shrinks state r) := by
  fun_induction iterate body shrinks state r with
  | case1 state r halt taken =>
    have one := keeps state r first
    rw [taken] at one
    exact one
  | case2 state r answer next taken =>
    have one := keeps state r first
    rw [taken] at one
    exact one
  | case3 state r later next taken ih =>
    have one := keeps state r first
    rw [taken] at one
    exact ih one

theorem iterate_weight {body : σ → Reader → Except Halt (Turn σ β)} (shrinks : ∀ state r, Yields r.Lighter (body state r))
    (state : σ) (r : Reader) : Yields (fun (_,last) => last.weight ≤ r.weight) (iterate body shrinks state r) := by
  refine iterate_ends shrinks (fun _ next => next.weight ≤ r.weight) (fun _ last => last.weight ≤ r.weight) ?_ state r
    (Nat.le_refl _)
  intro state next bound
  refine (shrinks state next).mono fun turn lighter => ?_
  cases turn with
  | again later last => exact Nat.le_trans (Nat.le_of_lt lighter) bound
  | done answer last => exact Nat.le_trans lighter bound

def node (r : Reader) (expected : Expectation) (owner : String → Owner) : Except Halt Reader := do
  let (token,r) ← r.expect .ident expected
  let (number,r) := r.number (owner token.text)
  let (_,r) ← iterate (part (owner token.text) number) (part_lighter _ _) .named r
  return r

def priority (r : Reader) (strict : Bool) : Except Halt Reader := do
  let ((first,order),r) ← iterate (upperPart strict) (upperPart_lighter strict) [] r
  let (second,r) ← iterate (lowerPart strict) (lowerPart_lighter strict) [] r
  r.rank first order second

def declaration (strict : Bool) (_ : Unit) (r : Reader) : Except Halt (Turn Unit Unit) := do
  let (token,r) ← r.scan
  match token.kind with
  | .eof => return .done () r
  | .net =>
    let (name,r) ← r.expect .ident .netName
    return .again () { r with net := { r.net with name := name.text } }
  | .transition => return .again () (← r.node .transitionName .transition)
  | .place => return .again () (← r.node .placeName .place)
  | .priority => return .again () (← r.priority strict)
  | .note => return .again () (← r.note)
  | _ => r.refuse (.unexpected .declaration token)

theorem node_weight (r : Reader) (expected : Expectation) (owner : String → Owner) :
    Yields (fun last => last.weight ≤ r.weight) (r.node expected owner) := by
  refine Ends.bind (r.expect_weight _ (by simp)) ?_
  intro answer lighter
  obtain ⟨token,next⟩ := answer
  have kept := next.number_weight (owner token.text)
  refine Ends.bind (iterate_weight _ _ (next.number (owner token.text)).2) ?_
  intro answer bound
  obtain ⟨_,last⟩ := answer
  change last.weight ≤ r.weight
  dsimp only at lighter bound
  omega

theorem rank_weight (r : Reader) (first : List Nat) (order : Order) (second : List Nat) :
    Yields (fun last => last.weight = r.weight) (r.rank first order second) := by
  cases order <;> exact Ends.bind (yields_any _) fun _ _ => rfl

theorem priority_weight (r : Reader) (strict : Bool) : Yields (fun last => last.weight ≤ r.weight) (r.priority strict) := by
  refine Ends.bind (iterate_weight _ _ _) ?_
  intro answer bound
  obtain ⟨⟨first,order⟩,next⟩ := answer
  refine Ends.bind (iterate_weight _ _ _) ?_
  intro answer further
  obtain ⟨second,last⟩ := answer
  dsimp only at bound further
  exact (last.rank_weight first order second).mono fun raised same => by omega

theorem note_weight (r : Reader) : Yields (fun last => last.weight ≤ r.weight) r.note := by
  refine Ends.bind (r.expect_weight _ (by simp)) ?_
  intro answer first
  obtain ⟨_,named⟩ := answer
  refine Ends.bind (named.expect_weight _ (by simp)) ?_
  intro answer second
  obtain ⟨_,levelled⟩ := answer
  refine Ends.bind (levelled.expect_weight _ (by simp)) ?_
  intro answer third
  obtain ⟨_,last⟩ := answer
  change last.weight ≤ r.weight
  dsimp only at first second third
  omega

theorem declaration_lighter (strict : Bool) (state : Unit) (r : Reader) : Yields r.Lighter (declaration strict state r) := by
  refine Ends.bind r.scan_weight ?_
  intro answer lighter
  obtain ⟨token,next⟩ := answer
  dsimp only at lighter ⊢
  split
  · change next.weight ≤ r.weight
    omega
  · next kind =>
    have paid := cost_more kind (by simp)
    refine Ends.bind (next.expect_weight _ (by simp)) ?_
    intro answer further
    obtain ⟨name,last⟩ := answer
    change last.weight < r.weight
    dsimp only at further
    omega
  · next kind =>
    have paid := cost_more kind (by simp)
    refine Ends.bind (next.node_weight _ _) fun last further => ?_
    change last.weight < r.weight
    omega
  · next kind =>
    have paid := cost_more kind (by simp)
    refine Ends.bind (next.node_weight _ _) fun last further => ?_
    change last.weight < r.weight
    omega
  · next kind =>
    have paid := cost_more kind (by simp)
    refine Ends.bind (next.priority_weight strict) fun last further => ?_
    change last.weight < r.weight
    omega
  · next kind =>
    have paid := cost_more kind (by simp)
    refine Ends.bind next.note_weight fun last further => ?_
    change last.weight < r.weight
    omega
  · trivial

end Reader

def readInPlace (strict : Bool) (text : String) : Except Halt (Net × Nat) := do
  let (_,r) ← Reader.iterate (Reader.declaration strict) (Reader.declaration_lighter strict) () (.start text)
  return (r.net,r.scanned)

end TimePetri
