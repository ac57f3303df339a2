import TimePetri.Proofs.Reader.Effects

namespace TimePetri.Reader

open Script

variable {strict : Bool} {r next : Reader} {token name : Token} {owner : Owner} {number : Nat} {stage : Stage} {net : Net}
  {later : Stage} {goal : Except ParseError Net} {total : Nat}

theorem stepBody_exact (owner : Owner) (stage : Stage) (token : Token) :
    stepBody owner stage token =
      if token.kind = .label then
        if stage = .named then emit (labelClause owner token.text) (.body owner .labelled)
        else stop (.unexpected (labelExpected owner) token)
      else if token.kind = owner.measureKind then
        if stage = .named ∨ stage = .labelled then
          .ofExcept do return emit (← measureOf owner token) (.body owner .measured)
        else stop (.unexpected (measureExpected owner) token)
      else if token.kind = .arrow then
        if stage = .after then stop (.unexpected (arrowExpected owner) token) else moveTo (.body owner .after)
      else if token.kind = .ident then moveTo (.arc owner stage.arcs token)
      else stepTop token := by
  cases owner with
  | transition transition =>
    cases kind : token.kind <;>
      simp [stepBody,stepTransition,kind,labelClause,labelExpected,measureExpected,arrowExpected,Owner.measureKind,measureOf]
  | place place =>
    cases kind : token.kind <;>
      simp [stepBody,stepPlace,kind,labelClause,labelExpected,measureExpected,arrowExpected,Owner.measureKind,measureOf]

theorem Knows.same {last : Net} (knows : Knows owner number net) (places : last.places = net.places)
    (transitions : last.transitions = net.transitions) : Knows owner number last := by
  cases owner with
  | transition name => exact (congrArg (·[number]?) transitions).trans knows
  | place name => exact (congrArg (·[number]?) places).trans knows

-- A declaration is being read, and what it declares has its number.
structure Declaring (strict : Bool) (goal : Except ParseError Net) (total : Nat) (owner : Owner) (number : Nat)
    (stage : Stage) (r : Reader) : Prop where
  stands : Stands strict goal total (.body owner stage) r
  knows : Knows owner number r.net

theorem label_ends (took : Took total r token next) (faithful : r.Faithful) (knows : Knows owner number r.net)
    (more : token.kind ≠ .eof)
    (reads : goal = r.net.apply strict (labelClause owner token.text) >>= fun last => run strict last (.body owner later) (next.ahead token)) :
    Ends (Failed goal total) (Declaring strict goal total owner number later) (next.label owner number token.text) := by
  have there := faithful.kept took.kept
  rw [took.ahead more,← took.kept.net] at reads
  have known : Knows owner number next.net := took.kept.net ▸ knows
  rw [label_exact strict there.sound known]
  refine (carry_ends (took.placed more) there there.sound ?_ (known.label _) reads).mono fun last after => ?_
  · cases owner <;> trivial
  · exact ⟨after.1,known.same after.2.1 after.2.2⟩

theorem measure_ends (took : Took total r token next) (faithful : r.Faithful) (knows : Knows owner number r.net)
    (more : token.kind ≠ .eof)
    (reads : goal = measureOf owner token >>= fun clause =>
      r.net.apply strict clause >>= fun last => run strict last (.body owner later) (next.ahead token)) :
    Ends (Failed goal total) (Declaring strict goal total owner number later) (next.measure owner number token) := by
  have there := faithful.kept took.kept
  rw [took.ahead more,← took.kept.net] at reads
  have known : Knows owner number next.net := took.kept.net ▸ knows
  rw [measure_exact strict there.sound known]
  refine Ends.bind (accept_ends (fun reason failed => ?_) took.scanned) fun clause read => ?_
  · rw [failed] at reads
    exact reads
  · rw [read] at reads
    obtain ⟨measured,named⟩ := known.measure read
    refine (carry_ends (took.placed more) there there.sound measured named reads).mono fun last after => ?_
    exact ⟨after.1,known.same after.2.1 after.2.2⟩

theorem scanArc_ends (placed : r.Placed total) (reads : goal = run strict net (.arc owner stage name) r.coming) :
    Ends (Failed goal total) (fun ((decoration,weight,mark),last) => last.Placed total ∧ Kept r last ∧ 0 ≤ weight.toInt ∧
      goal = (arcUse owner stage decoration).mapError (.unexpected · (mark.getD name)) >>= fun use =>
        net.apply strict (arcOf owner name.text use weight (mark.getD name)) >>= fun further =>
          run strict further (.body owner stage) last.coming) r.scanArc := by
  refine Ends.bind (scan_ends placed reads) ?_
  intro answer took
  obtain ⟨token,next⟩ := answer
  have taken := step_arc took.legal owner stage name
  rw [took.coming] at reads
  dsimp only
  split
  · next decoration decorated =>
    have more : token.kind ≠ .eof := fun ends => by rw [ends] at decorated; cases decorated
    simp only [stepArc,decorated] at taken
    refine Ends.bind (accept_ends (fun reason failed => ?_) took.scanned) fun weight read => ?_
    · rw [failed] at taken
      exact reads.trans (run_stops taken)
    · refine ⟨took.placed more,took.kept,readWeight_nonneg read,?_⟩
      rw [read] at taken
      cases fits : arcUse owner stage decoration with
      | error expected =>
        rw [fits] at taken
        exact reads.trans (run_stops taken)
      | ok use =>
        rw [fits] at taken
        rw [took.ahead more] at reads
        exact reads.trans (run_emits taken)
  · next bare =>
    simp only [stepArc,bare] at taken
    refine Ends.bind (unscan_ends took) fun last again => ?_
    obtain ⟨lastPlaced,coming,kept⟩ := again
    have one : 0 ≤ (1 : Int64).toInt := by decide
    refine ⟨lastPlaced,kept,one,?_⟩
    rw [coming,took.coming]
    cases fits : arcUse owner stage .plain with
    | error expected =>
      rw [fits] at taken
      exact reads.trans (run_stops taken)
    | ok use =>
      rw [fits,← step_body took.legal owner stage] at taken
      exact reads.trans (run_after taken)

theorem Knows.other (knows : Knows owner number net) (name : String) : Knows owner number (ensure (owner.other name) net).2 := by
  cases owner with
  | transition transition => exact (congrArg (·[number]?) (Net.ensurePlace_names net name).2).trans knows
  | place place => exact (congrArg (·[number]?) (Net.ensureTransition_names net name).2).trans knows

theorem arcOf_measured {weight : Int64} (nonneg : 0 ≤ weight.toInt) (owner : Owner) (name : String) (use : Use) (token : Token) :
    (arcOf owner name use weight token).Measured := by
  cases owner <;> exact nonneg

theorem arc_ends (took : Took total r name next) (faithful : r.Faithful) (knows : Knows owner number r.net)
    (more : name.kind ≠ .eof) (reads : goal = run strict r.net (.arc owner stage name) (next.ahead name)) :
    Ends (Failed goal total) (Declaring strict goal total owner number stage) (next.arc owner number stage name) := by
  have there := faithful.kept took.kept
  rw [took.ahead more,← took.kept.net] at reads
  have known : Knows owner number next.net := took.kept.net ▸ knows
  obtain ⟨placeNumbers,transitionNumbers,same,further⟩ := number_ensured there (owner.other name.text)
  unfold arc
  rw [same]
  refine Ends.bind (scanArc_ends (took.placed more) reads) ?_
  intro answer after
  obtain ⟨⟨decoration,weight,mark⟩,marked⟩ := answer
  obtain ⟨placed,kept,nonneg,reads⟩ := after
  refine Ends.bind (accept_ends (fun reason failed => ?_) placed.scanned) fun use fits => ?_
  · rw [failed] at reads
    exact reads
  · rw [fits] at reads
    have both := further.kept kept
    have named := known.arc name.text use weight (mark.getD name)
    rw [connectEnds_exact strict there.sound known kept.net both nonneg use (mark.getD name)]
    refine (carry_ends placed both there.sound (arcOf_measured nonneg _ _ _ _) (kept.net ▸ named) reads).mono fun last after => ?_
    exact ⟨after.1,(known.other name.text).same (after.2.1.trans (congrArg Net.places kept.net))
      (after.2.2.trans (congrArg Net.transitions kept.net))⟩

-- What is done at a token agrees with the step that it makes.
def Agrees (strict : Bool) (goal : Except ParseError Net) (total : Nat) (owner : Owner) (number : Nat) (stage : Stage)
    (token : Token) (taken : Step) (turn : Except Halt (Turn Stage Unit)) : Prop :=
  step (.body owner stage) token = taken → Ends (Failed goal total)
    (Turn.Keeps (Declaring strict goal total owner number) fun _ => Stands strict goal total .top) turn

theorem Agrees.branch {choice : Prop} [Decidable choice] {one other : Step} {first second : Except Halt (Turn Stage Unit)}
    (yes : choice → Agrees strict goal total owner number stage token one first)
    (no : ¬ choice → Agrees strict goal total owner number stage token other second) :
    Agrees strict goal total owner number stage token (if choice then one else other) (if choice then first else second) := by
  split
  · next holds => exact yes holds
  · next fails => exact no fails

theorem part_ends (declaring : Declaring strict goal total owner number stage r) :
    Ends (Failed goal total) (Turn.Keeps (Declaring strict goal total owner number) fun _ => Stands strict goal total .top)
      (part owner number stage r) := by
  obtain ⟨stands,knows⟩ := declaring
  have faithful := stands.faithful
  refine Ends.bind (scan_ends stands.placed stands.reads) ?_
  intro answer took
  obtain ⟨token,next⟩ := answer
  have reads := stands.reads
  rw [took.coming] at reads
  have refused : ∀ expected, Agrees strict goal total owner number stage token (stop (.unexpected expected token))
      (next.refuse (.unexpected expected token)) :=
    fun expected taken => refuse_ends (reads.trans (run_stops taken)) took.scanned
  -- Scanning and stepping branch alike, by the kind of the token and then by the stage.
  refine Agrees.branch (fun kind => .branch (fun named taken => ?label) fun late => refused _) (fun _ => .branch
    (fun kind => .branch (fun early taken => ?measure) fun late => refused _) fun _ => .branch
      (fun kind => .branch (fun twice => refused _) fun first taken => ?arrow) fun _ => .branch (fun kind taken => ?name)
        fun _ taken => ?behind) ((step_body took.legal owner stage).trans (stepBody_exact owner stage token))
  case label =>
    have more : token.kind ≠ .eof := by simp [kind]
    exact Ends.bind (label_ends took faithful knows more (reads.trans (run_emits taken))) fun _ last => last
  case measure =>
    have more : token.kind ≠ .eof := by cases owner <;> simp [kind,Owner.measureKind]
    have further : goal = measureOf owner token >>= fun clause => r.net.apply strict clause >>= fun last =>
        run strict last (.body owner .measured) (next.ahead token) := by
      cases read : measureOf owner token with
      | error reason =>
        rw [read] at taken
        exact reads.trans (run_stops taken)
      | ok clause =>
        rw [read] at taken
        exact reads.trans (run_emits taken)
    exact Ends.bind (measure_ends took faithful knows more further) fun _ last => last
  case arrow =>
    have more : token.kind ≠ .eof := by simp [kind]
    rw [run_moves taken,took.ahead more,← took.kept.net] at reads
    exact ⟨⟨took.placed more,faithful.kept took.kept,reads⟩,took.kept.net ▸ knows⟩
  case name =>
    have more : token.kind ≠ .eof := by simp [kind]
    exact Ends.bind (arc_ends took faithful knows more (reads.trans (run_moves taken))) fun _ last => last
  case behind =>
    rw [← step_top took.legal] at taken
    refine Ends.bind (unscan_ends took) fun last again => ?_
    obtain ⟨placed,coming,kept⟩ := again
    refine ⟨placed,faithful.kept kept,?_⟩
    rw [coming,took.coming,kept.net]
    exact reads.trans (run_same taken)

end TimePetri.Reader
