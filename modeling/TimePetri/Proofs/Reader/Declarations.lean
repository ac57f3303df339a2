import TimePetri.Proofs.Reader.Parts
import TimePetri.Proofs.Reader.Priorities

namespace TimePetri

open Script

namespace Reader

variable {strict : Bool} {r next : Reader} {token : Token} {owner : Owner} {number : Nat} {net : Net} {mode later : Mode}
  {goal : Except ParseError Net} {total : Nat}

theorem Took.moves (took : Took total r token next) (faithful : r.Faithful) (more : token.kind ≠ .eof)
    (reads : goal = run strict r.net later (next.ahead token)) : Stands strict goal total later next := by
  rw [took.ahead more,← took.kept.net] at reads
  exact ⟨took.placed more,faithful.kept took.kept,reads⟩

theorem body_ends (declaring : Declaring strict goal total owner number .named r) :
    Ends (Failed goal total) (fun (_,last) => Stands strict goal total .top last)
      (iterate (part owner number) (part_lighter owner number) .named r) :=
  iterate_ends (part_lighter owner number) (Declaring strict goal total owner number) (fun _ => Stands strict goal total .top)
    (fun _ _ => part_ends) .named r declaring

theorem ensure_knows (owner : Owner) (net : Net) : Knows owner (ensure owner net).1 (ensure owner net).2 := by
  cases owner with
  | transition name => exact Net.ensureTransition_number net name
  | place name => exact Net.ensurePlace_number net name

theorem ensure_applied (strict : Bool) (owner : Owner) (net : Net) :
    net.apply strict owner.clause = .ok (ensure owner net).2 := by
  cases owner <;> rfl

theorem node_ends {expected : Expectation} {owner : String → Owner} (stands : Stands strict goal total mode r)
    (asks : ∀ token, token.kind ≠ .illegal → step mode token =
      expecting .ident expected (fun name => emit (owner name).clause (.body (owner name) .named)) token) :
    Ends (Failed goal total) (Stands strict goal total .top) (r.node expected owner) := by
  refine Ends.bind (expect_ends stands.placed stands.reads asks) ?_
  intro answer after
  obtain ⟨token,next⟩ := answer
  obtain ⟨took,kind,taken⟩ := after
  have more : token.kind ≠ .eof := by simp [kind]
  have there := stands.faithful.kept took.kept
  have reads := stands.reads
  rw [took.coming,run_emits taken,took.ahead more,← took.kept.net,ensure_applied] at reads
  obtain ⟨placeNumbers,transitionNumbers,same,further⟩ := number_ensured there (owner token.text)
  dsimp only
  rw [same]
  exact Ends.bind (body_ends ⟨⟨took.placed more,further,reads⟩,ensure_knows _ _⟩) fun _ last => last

theorem expect_moves {kind : Kind} {expected : Expectation} (stands : Stands strict goal total mode r)
    (asks : ∀ token, token.kind ≠ .illegal → step mode token = expecting kind expected (fun _ => moveTo later) token)
    (more : kind ≠ .eof) :
    Ends (Failed goal total) (fun (_,next) => Stands strict goal total later next) (r.expect kind expected) := by
  refine (expect_ends stands.placed stands.reads asks).mono fun answer after => ?_
  obtain ⟨token,next⟩ := answer
  obtain ⟨took,same,taken⟩ := after
  have reads := stands.reads
  rw [took.coming,run_moves taken] at reads
  exact took.moves stands.faithful (same ▸ more) reads

theorem note_ends (stands : Stands strict goal total .noteName r) :
    Ends (Failed goal total) (Stands strict goal total .top) r.note := by
  refine Ends.bind (expect_moves stands (fun _ legal => if_neg legal) (by simp)) fun answer level => ?_
  obtain ⟨_,named⟩ := answer
  refine Ends.bind (expect_moves level (fun _ legal => if_neg legal) (by simp)) fun answer text => ?_
  obtain ⟨_,levelled⟩ := answer
  refine Ends.bind (expect_ends text.placed text.reads fun _ legal => if_neg legal) fun answer after => ?_
  obtain ⟨token,last⟩ := answer
  obtain ⟨took,kind,taken⟩ := after
  have reads := text.reads
  rw [took.coming,run_emits taken] at reads
  exact took.moves text.faithful (by simp [kind]) reads

theorem netName_ends (stands : Stands strict goal total .netName r) :
    Ends (Failed goal total) (fun (name,next) => Stands strict goal total .top { next with net := { next.net with name := name.text } })
      (r.expect .ident .netName) := by
  refine (expect_ends stands.placed stands.reads fun _ legal => if_neg legal).mono fun answer after => ?_
  obtain ⟨token,next⟩ := answer
  obtain ⟨took,kind,taken⟩ := after
  have more : token.kind ≠ .eof := by simp [kind]
  have there := stands.faithful.kept took.kept
  have reads := stands.reads
  rw [took.coming,run_emits taken,took.ahead more,← took.kept.net] at reads
  have named := Net.apply_sound there.sound strict (.netName token.text) trivial rfl
  exact ⟨took.placed more,⟨named,there.places,there.transitions⟩,reads⟩

-- The whole text is read when its end is the token that starts no further declaration.
def Complete (goal : Except ParseError Net) (total : Nat) (r : Reader) : Prop := goal = .ok r.net ∧ r.scanned ≤ total + 1

theorem declaration_ends (stands : Stands strict goal total .top r) :
    Ends (Failed goal total) (Turn.Keeps (fun _ => Stands strict goal total .top) fun _ => Complete goal total)
      (declaration strict () r) := by
  refine Ends.bind (scan_ends stands.placed stands.reads) fun answer took => ?_
  obtain ⟨token,next⟩ := answer
  have reads := stands.reads
  have faithful := stands.faithful
  have taken := step_top took.legal
  rw [took.coming] at reads
  unfold stepTop at taken
  dsimp only
  split
  · next kind =>
    rw [kind] at taken
    rw [run_moves taken,ahead,if_pos (.inl kind),← took.kept.net] at reads
    exact ⟨reads,took.scanned⟩
  · next kind =>
    rw [kind] at taken
    have named := took.moves faithful (by simp [kind]) (reads.trans (run_moves taken))
    exact Ends.bind (netName_ends named) fun _ further => further
  · next kind =>
    rw [kind] at taken
    have named := took.moves faithful (by simp [kind]) (reads.trans (run_moves taken))
    exact Ends.bind (node_ends named fun _ legal => if_neg legal) fun last further => further
  · next kind =>
    rw [kind] at taken
    have named := took.moves faithful (by simp [kind]) (reads.trans (run_moves taken))
    exact Ends.bind (node_ends named fun _ legal => if_neg legal) fun last further => further
  · next kind =>
    rw [kind] at taken
    have opened := took.moves faithful (by simp [kind]) (reads.trans (run_moves taken))
    exact Ends.bind (priority_ends opened) fun last further => further
  · next kind =>
    rw [kind] at taken
    have named := took.moves faithful (by simp [kind]) (reads.trans (run_moves taken))
    exact Ends.bind (note_ends named) fun last further => further
  · next notEnd notNet notTransition notPlace notPriority notNote =>
    have stops : step .top token = stop (.unexpected .declaration token) := by
      split at taken <;> first | exact taken | contradiction
    exact refuse_ends (reads.trans (run_stops stops)) took.scanned

end Reader

theorem readInPlace_ends (strict : Bool) (text : String) :
    Ends (Reader.Failed (Net.parse strict text).value text.length)
      (fun (net,scanned) => (Net.parse strict text).value = .ok net ∧ scanned ≤ text.length + 1) (readInPlace strict text) := by
  have placed : (Reader.start text).Placed text.length := by
    change 0 + text.toList.length ≤ text.length
    rw [Nat.zero_add,String.length_toList]
  have opened : Reader.Stands strict (Net.parse strict text).value text.length .top (.start text) :=
    ⟨placed,⟨Net.empty_sound,fun _ => (Array.idxOf?_empty ..).symm,fun _ => (Array.idxOf?_empty ..).symm⟩,Reader.parse_run strict text⟩
  refine Ends.bind (Reader.iterate_ends (Reader.declaration_lighter strict) (fun _ => Reader.Stands strict _ _ .top)
    (fun _ => Reader.Complete _ _) (fun _ _ => Reader.declaration_ends) () _ opened) fun _ complete => complete

end TimePetri
