import TimePetri.Proofs.Reader.Run

namespace TimePetri.Reader

open Script

variable {strict : Bool} {total : Nat} {r next : Reader} {token : Token} {mode later : Mode} {net : Net}
  {goal : Except ParseError Net} {reason : ParseError}

-- The reading ends as the whole text does, before more tokens were asked for than it has
-- characters and one more.
def Failed (goal : Except ParseError Net) (total : Nat) : Halt → Prop
  | .refused reason scanned => goal = .error reason ∧ scanned ≤ total + 1
  | .panicked _ => False

def ahead (r : Reader) (token : Token) : List Token :=
  if token.kind = .eof ∨ token.kind = .illegal then [] else tokensFrom r.here r.rest

def coming (r : Reader) : List Token :=
  match r.pending with
  | some token => token :: r.ahead token
  | none => tokensFrom r.here r.rest

-- Each token that was asked for used up a character, the end alone did not.
def Placed (total : Nat) (r : Reader) : Prop :=
  match r.pending with
  | some token => token.kind ≠ .illegal ∧ r.scanned + r.rest.length + cost token ≤ total + 1
  | none => r.scanned + r.rest.length ≤ total

structure Kept (r next : Reader) : Prop where
  net : next.net = r.net
  placeNumbers : next.placeNumbers = r.placeNumbers
  transitionNumbers : next.transitionNumbers = r.transitionNumbers

structure Took (total : Nat) (r : Reader) (token : Token) (next : Reader) : Prop where
  coming : r.coming = token :: next.ahead token
  legal : token.kind ≠ .illegal
  free : next.pending = none
  count : next.scanned + next.rest.length + cost token ≤ total + 1
  kept : Kept r next

theorem take_coming (r : Reader) : tokensFrom r.here r.rest = r.take.1 :: r.take.2.ahead r.take.1 := by
  rw [tokensFrom]
  by_cases ends : r.take.1.kind = .eof ∨ r.take.1.kind = .illegal
  · rw [ahead,if_pos ends]
    exact dif_pos ends
  · rw [ahead,if_neg ends]
    exact dif_neg ends

theorem pop_coming (r : Reader) : r.coming = r.pop.1 :: r.pop.2.ahead r.pop.1 := by
  unfold coming pop
  cases r.pending with
  | some token => rfl
  | none => exact take_coming r

theorem pop_kept (r : Reader) : Kept r r.pop.2 := by
  unfold pop
  cases r.pending <;> exact ⟨rfl,rfl,rfl⟩

theorem take_count (r : Reader) : r.take.2.scanned + r.take.2.rest.length + cost r.take.1 ≤ r.scanned + r.rest.length + 1 := by
  have paid := r.take_weight
  have counted : r.take.2.scanned = r.scanned + 1 := rfl
  have bound : cost r.take.1 ≤ 1 := by unfold cost; split <;> omega
  omega

theorem pop_count (placed : r.Placed total) : r.pop.2.scanned + r.pop.2.rest.length + cost r.pop.1 ≤ total + 1 := by
  unfold Placed at placed
  unfold pop
  cases pending : r.pending with
  | some token => rw [pending] at placed; exact placed.2
  | none =>
    rw [pending] at placed
    have counted := r.take_count
    dsimp only at placed ⊢
    omega

theorem scan_ends (placed : r.Placed total) (reads : goal = run strict net mode r.coming) :
    Ends (Failed goal total) (fun (token,next) => Took total r token next) r.scan := by
  have coming := r.pop_coming
  have count := pop_count placed
  unfold scan
  dsimp only
  split
  · next illegal =>
    rw [coming,run_stops (step_illegal illegal)] at reads
    exact ⟨reads,by omega⟩
  · next legal =>
    refine ⟨coming,legal,?_,count,pop_kept r⟩
    unfold pop
    cases pending : r.pending with
    | some token => rfl
    | none => exact pending

theorem refuse_ends {α : Type} {good : α → Prop} (failed : goal = .error reason) (count : next.scanned ≤ total + 1) :
    Ends (Failed goal total) good (next.refuse reason) := ⟨failed,count⟩

theorem accept_ends {α : Type} {result : Except ParseError α} (failed : ∀ reason, result = .error reason → goal = .error reason)
    (count : next.scanned ≤ total + 1) : Ends (Failed goal total) (fun a => result = .ok a) (next.accept result) := by
  cases result with
  | ok a => exact rfl
  | error reason => exact ⟨failed reason rfl,count⟩

theorem Took.scanned (took : Took total r token next) : next.scanned ≤ total + 1 := by
  have count := took.count
  omega

theorem Took.placed (took : Took total r token next) (more : token.kind ≠ .eof) : next.Placed total := by
  have count := took.count
  rw [cost,if_neg more] at count
  unfold Placed
  rw [took.free]
  dsimp only
  omega

theorem Took.ahead (took : Took total r token next) (more : token.kind ≠ .eof) : next.ahead token = next.coming := by
  unfold Reader.ahead Reader.coming
  rw [took.free,if_neg fun ends => ends.elim more took.legal]

theorem unscan_ends {bad : Halt → Prop} (took : Took total r token next) :
    Ends bad (fun last => last.Placed total ∧ last.coming = r.coming ∧ Kept r last) (next.unscan token) := by
  unfold unscan
  rw [took.free]
  exact ⟨⟨took.legal,took.count⟩,took.coming.symm,⟨took.kept.net,took.kept.placeNumbers,took.kept.transitionNumbers⟩⟩

theorem expect_ends {kind : Kind} {expected : Expectation} {further : String → Step} (placed : r.Placed total)
    (reads : goal = run strict net mode r.coming)
    (expects : ∀ token, token.kind ≠ .illegal → step mode token = expecting kind expected further token) :
    Ends (Failed goal total) (fun (token,next) => Took total r token next ∧ token.kind = kind ∧
      step mode token = further token.text) (r.expect kind expected) := by
  refine Ends.bind (scan_ends placed reads) ?_
  intro answer took
  obtain ⟨token,next⟩ := answer
  have asks := expects token took.legal
  unfold expecting at asks
  dsimp only
  split
  · next same =>
    rw [if_pos same] at asks
    exact ⟨took,same,asks⟩
  · next other =>
    rw [if_neg other] at asks
    rw [took.coming,run_stops asks] at reads
    exact refuse_ends reads took.scanned

end TimePetri.Reader
