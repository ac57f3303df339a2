import TimePetri.Reader.Basic

namespace TimePetri

open Script

def Ends (bad : Halt → Prop) (good : α → Prop) : Except Halt α → Prop
  | .ok a => good a
  | .error halt => bad halt

def Turn.Keeps (inv : σ → Reader → Prop) (good : β → Reader → Prop) : Turn σ β → Prop
  | .again state r => inv state r
  | .done answer r => good answer r

theorem Ends.bind {bad : Halt → Prop} {middle : α → Prop} {good : β → Prop} {first : Except Halt α}
    {next : α → Except Halt β} (one : Ends bad middle first) (other : ∀ a, middle a → Ends bad good (next a)) :
    Ends bad good (first >>= next) := by
  cases first with
  | ok a => exact other a one
  | error halt => exact one

theorem Ends.mono {bad : Halt → Prop} {middle good : α → Prop} {result : Except Halt α} (one : Ends bad middle result)
    (more : ∀ a, middle a → good a) : Ends bad good result := by
  cases result with
  | ok a => exact more a one
  | error halt => exact one

def Yields (good : α → Prop) : Except Halt α → Prop := Ends (fun _ => True) good

theorem yields_all {good : α → Prop} (result : Except Halt α) (all : ∀ a, good a) : Yields good result := by
  cases result with
  | ok a => exact all a
  | error halt => trivial

namespace Reader

-- What is left to read. A token that was given back counts half a character, so that it
-- can be paid for by the token before it. The end can be given back for nothing.
def cost (token : Token) : Nat := if token.kind = .eof then 0 else 1

def weight (r : Reader) : Nat := 2 * r.rest.length + r.pending.elim 0 cost

theorem take_weight (r : Reader) : 2 * r.take.2.rest.length + cost r.take.1 ≤ 2 * r.rest.length := by
  have whole := congrArg List.length (lex_source r.rest)
  simp only [Lexeme.source,List.length_append] at whole
  change 2 * (lex r.rest).rest.length + _ ≤ _
  unfold cost
  split
  · omega
  · next more =>
    have shorter := lex_shorter r.rest more
    omega

theorem scan_weight (r : Reader) : Yields (fun (token,next) => next.weight + cost token ≤ r.weight) r.scan := by
  have popped : r.pop.2.weight + cost r.pop.1 ≤ r.weight := by
    unfold pop weight
    cases given : r.pending with
    | some token => simp
    | none =>
      have taken := r.take_weight
      have kept : r.take.2.pending = none := given
      simp only [kept,Option.elim_none]
      omega
  unfold scan
  dsimp only
  split
  · trivial
  · exact popped

theorem unscan_weight (r : Reader) (token : Token) :
    Yields (fun next => next.weight ≤ r.weight + cost token) (r.unscan token) := by
  unfold unscan
  split
  · trivial
  · change 2 * r.rest.length + cost token ≤ 2 * r.rest.length + _ + cost token
    omega

theorem cost_more {token : Token} {kind : Kind} (same : token.kind = kind) (more : kind ≠ .eof) : cost token = 1 := by
  rw [cost,if_neg (same ▸ more)]

theorem expect_weight (r : Reader) {kind : Kind} (expected : Expectation) (more : kind ≠ .eof) :
    Yields (fun (_,next) => next.weight < r.weight) (r.expect kind expected) := by
  refine Ends.bind r.scan_weight ?_
  intro answer lighter
  obtain ⟨token,next⟩ := answer
  by_cases same : token.kind = kind
  · have paid := cost_more same more
    simp only [same,if_true]
    change next.weight < r.weight
    omega
  · simp only [same,if_false]
    trivial

theorem placeNumber_weight (r : Reader) (name : String) : (r.placeNumber name).2.weight = r.weight := by
  unfold placeNumber
  split <;> rfl

theorem transitionNumber_weight (r : Reader) (name : String) : (r.transitionNumber name).2.weight = r.weight := by
  unfold transitionNumber
  split <;> rfl

theorem number_weight (r : Reader) (owner : Owner) : (r.number owner).2.weight = r.weight := by
  cases owner with
  | transition name => exact transitionNumber_weight r name
  | place name => exact placeNumber_weight r name

theorem yields_any (result : Except Halt α) : Yields (fun _ => True) result := yields_all _ fun _ => trivial

theorem connect_weight (r : Reader) (transition place : Nat) (use : Use) (count : Int64) (token : Token) :
    Yields (fun next => next.weight = r.weight) (r.connect transition place use count token) := by
  cases use with
  | consume =>
    exact Ends.bind (yields_any _) fun _ _ => Ends.bind (yields_any _) fun _ _ => Ends.bind (yields_any _) fun _ _ =>
      Ends.bind (yields_any _) fun _ _ => rfl
  | produce => exact Ends.bind (yields_any _) fun _ _ => rfl
  | test => exact Ends.bind (yields_any _) fun _ _ => rfl
  | inhibit => exact Ends.bind (yields_any _) fun _ _ => rfl

theorem connectEnds_weight (r : Reader) (owner : Owner) (number other : Nat) (use : Use) (count : Int64) (token : Token) :
    Yields (fun next => next.weight = r.weight) (r.connectEnds owner number other use count token) := by
  cases owner <;> exact connect_weight _ _ _ _ _ _

theorem label_weight (r : Reader) (owner : Owner) (number : Nat) (text : String) :
    Yields (fun next => next.weight = r.weight) (r.label owner number text) := by
  cases owner <;> exact Ends.bind (yields_any _) fun _ _ => rfl

theorem measure_weight (r : Reader) (owner : Owner) (number : Nat) (token : Token) :
    Yields (fun next => next.weight = r.weight) (r.measure owner number token) := by
  cases owner with
  | transition name =>
    exact Ends.bind (yields_any _) fun _ _ => Ends.bind (yields_any _) fun _ _ => Ends.bind (yields_any _) fun _ _ => rfl
  | place name => exact Ends.bind (yields_any _) fun _ _ => Ends.bind (yields_any _) fun _ _ => rfl

theorem scanArc_weight (r : Reader) : Yields (fun (_,next) => next.weight ≤ r.weight) r.scanArc := by
  refine Ends.bind r.scan_weight ?_
  intro answer lighter
  obtain ⟨token,next⟩ := answer
  dsimp only at lighter ⊢
  split
  · refine Ends.bind (yields_any _) fun _ _ => ?_
    change next.weight ≤ r.weight
    omega
  · refine Ends.bind (next.unscan_weight token) fun given bound => ?_
    change given.weight ≤ r.weight
    omega

theorem arc_weight (r : Reader) (owner : Owner) (number : Nat) (stage : Stage) (name : Token) :
    Yields (fun next => next.weight ≤ r.weight) (r.arc owner number stage name) := by
  have kept := r.number_weight (owner.other name.text)
  refine Ends.bind (r.number (owner.other name.text)).2.scanArc_weight ?_
  intro answer bound
  obtain ⟨⟨decoration,count,mark⟩,marked⟩ := answer
  refine Ends.bind (yields_any _) fun use _ => ?_
  refine (connectEnds_weight _ _ _ _ _ _ _).mono fun last same => ?_
  dsimp only at bound
  omega

def Lighter (r : Reader) : Turn σ β → Prop :=
  Turn.Keeps (fun _ next => next.weight < r.weight) fun _ next => next.weight ≤ r.weight

theorem part_lighter (owner : Owner) (number : Nat) (stage : Stage) (r : Reader) :
    Yields r.Lighter (part owner number stage r) := by
  refine Ends.bind r.scan_weight ?_
  intro answer lighter
  obtain ⟨token,next⟩ := answer
  dsimp only at lighter ⊢
  split
  · next kind =>
    have paid := cost_more kind (by simp)
    split
    · refine Ends.bind (next.label_weight owner number token.text) fun last same => ?_
      change last.weight < r.weight
      omega
    · trivial
  split
  · next kind =>
    have paid := cost_more kind (by cases owner <;> simp [Owner.measureKind])
    split
    · refine Ends.bind (next.measure_weight owner number token) fun last same => ?_
      change last.weight < r.weight
      omega
    · trivial
  split
  · next kind =>
    have paid := cost_more kind (by simp)
    split
    · trivial
    · change next.weight < r.weight
      omega
  split
  · next kind =>
    have paid := cost_more kind (by simp)
    refine Ends.bind (next.arc_weight owner number stage.arcs token) fun last bound => ?_
    change last.weight < r.weight
    omega
  · refine Ends.bind (next.unscan_weight token) fun given bound => ?_
    change given.weight ≤ r.weight
    omega

theorem priorityNumber_weight (r : Reader) (strict : Bool) (token : Token) :
    Yields (fun (_,next) => next.weight = r.weight) (r.priorityNumber strict token) := by
  unfold priorityNumber
  split
  · trivial
  · exact transitionNumber_weight r token.text

theorem upperPart_lighter (strict : Bool) (first : List Nat) (r : Reader) : Yields r.Lighter (upperPart strict first r) := by
  have operator : ∀ (token : Token) (next : Reader) (order : Order), next.weight ≤ r.weight →
      Yields r.Lighter (upperPart.operator first token next order) := by
    intro token next order bound
    unfold upperPart.operator
    split
    · trivial
    · exact bound
  refine Ends.bind r.scan_weight ?_
  intro answer lighter
  obtain ⟨token,next⟩ := answer
  dsimp only at lighter ⊢
  split
  · next kind =>
    have paid := cost_more kind (by simp)
    refine Ends.bind (next.priorityNumber_weight strict token) ?_
    intro answer same
    obtain ⟨number,last⟩ := answer
    change last.weight < r.weight
    dsimp only at same
    omega
  · exact operator token next .above (by omega)
  · exact operator token next .below (by omega)
  · trivial

theorem lowerPart_lighter (strict : Bool) (second : List Nat) (r : Reader) : Yields r.Lighter (lowerPart strict second r) := by
  refine Ends.bind r.scan_weight ?_
  intro answer lighter
  obtain ⟨token,next⟩ := answer
  dsimp only at lighter ⊢
  split
  · next kind =>
    have paid := cost_more kind (by simp)
    refine Ends.bind (next.priorityNumber_weight strict token) ?_
    intro answer same
    obtain ⟨number,last⟩ := answer
    change last.weight < r.weight
    dsimp only at same
    omega
  · split
    · trivial
    · refine Ends.bind (next.unscan_weight token) fun given bound => ?_
      change given.weight ≤ r.weight
      omega

end Reader

end TimePetri
