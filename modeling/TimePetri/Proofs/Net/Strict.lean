import Mathlib
import TimePetri.Proofs.Net.Names
import TimePetri.Proofs.Net.Overflow
import TimePetri.Proofs.Reader.Run
import TimePetri.Proofs.Script.Passes

namespace TimePetri

open Script

namespace Net

-- A name in a list of a priority that was not mentioned before it. Lenient reading comes
-- to it without an error, and the tokens before it are its front.
structure Undeclared (text : String) (front : List Token) (token : Token) : Prop where
  stands : ∃ rest, tokens text = front ++ token :: rest
  name : token.kind = .ident
  passed : ∃ clauses mode net, Passes .top front clauses mode ∧ mode.Ranks ∧
    clauses.foldlM (apply false) empty = .ok net ∧ token.text ∉ clauses.flatMap Clause.transitionNames

def Unknown (net : Net) (mode : Mode) (token : Token) : Prop :=
  mode.Ranks ∧ token.kind = .ident ∧ token.text ∉ net.transitions

-- Such a name behind some tokens, from any state of the reading on.
structure Reaches (net : Net) (mode : Mode) (tokens front : List Token) (token : Token) : Prop where
  stands : ∃ rest, tokens = front ++ token :: rest
  passed : ∃ clauses last after, Passes mode front clauses last ∧
    clauses.foldlM (apply false) net = .ok after ∧ Unknown after last token

variable {net after : Net} {mode next : Mode} {front rest tokens : List Token} {token other : Token}
  {clauses : List Clause} {clause : Clause} {text : String}

theorem apply_known (strict : Bool) (known : token.text ∈ net.transitions) :
    net.apply strict (.mention token) = .ok net := by
  rw [apply_mention]
  rcases ensureTransition_cases net token.text with ⟨t,found,same⟩ | ⟨fresh,_⟩
  · rw [transitionIndex?,found,same]
    simp
  · exact absurd known fresh

theorem apply_unknown (unknown : token.text ∉ net.transitions) :
    net.apply true (.mention token) = .error (.undeclared token) := by
  rw [apply_mention,transitionIndex?,Array.idxOf?_eq_none_iff.mpr unknown]
  rfl

theorem apply_silent (net : Net) (silent : clause.mentioned? = none) : net.apply true clause = net.apply false clause := by
  cases clause with
  | mention token => cases silent
  | priority first order second => cases order <;> rfl
  | _ => rfl

theorem run_silent (net : Net) (clauses : List Clause) (silent : ∀ clause ∈ clauses, clause.mentioned? = none) :
    clauses.foldlM (apply true) net = clauses.foldlM (apply false) net := by
  induction clauses generalizing net with
  | nil => rfl
  | cons clause rest ih =>
    rw [List.foldlM_cons,List.foldlM_cons,apply_silent net (silent clause (by simp))]
    exact congrArg (net.apply false clause >>= ·) (funext fun next => ih next fun other member =>
      silent other (List.mem_cons_of_mem _ member))

theorem applyAll_strict (net : Net) (clauses : List Clause) :
    (∃ token, (net.applyAll true clauses).value = .error (.undeclared token)) ∨
      net.applyAll true clauses = net.applyAll false clauses := by
  induction clauses generalizing net with
  | nil => exact .inr rfl
  | cons clause rest ih =>
    -- Both go on alike as long as the clauses before have the same effect.
    have go (same : net.apply true clause = net.apply false clause) :
        (∃ token, (net.applyAll true (clause :: rest)).value = .error (.undeclared token)) ∨
          net.applyAll true (clause :: rest) = net.applyAll false (clause :: rest) := by
      unfold applyAll
      rw [same]
      cases net.apply false clause with
      | error reason => exact .inr rfl
      | ok next =>
        dsimp only
        rcases ih next with ⟨token,refused⟩ | agrees
        · exact .inl ⟨token,refused⟩
        · exact .inr (by rw [agrees])
    cases silent : clause.mentioned? with
    | none => exact go (apply_silent net silent)
    | some token =>
      obtain rfl : clause = .mention token := by cases clause <;> cases silent; rfl
      by_cases known : token.text ∈ net.transitions
      · exact go ((apply_known true known).trans (apply_known false known).symm)
      · refine .inl ⟨token,?_⟩
        unfold applyAll
        rw [apply_unknown known]
        rfl

theorem reaches_exact : Reaches net mode (token :: rest) front other ↔
    front = [] ∧ other = token ∧ Unknown net mode token ∨
      ∃ tail clauses next after, front = token :: tail ∧ step mode token = ⟨clauses,.ok next⟩ ∧
        clauses.foldlM (apply false) net = .ok after ∧ Reaches after next rest tail other := by
  constructor
  · rintro ⟨⟨behind,stands⟩,clauses,last,after,passes,applied,unknown⟩
    cases passes with
    | none mode =>
      cases stands
      cases applied
      exact .inl ⟨rfl,rfl,unknown⟩
    | one taken further =>
      obtain ⟨rfl,tail⟩ := List.cons.inj stands
      rw [List.foldlM_append] at applied
      obtain ⟨middle,first,second⟩ := bind_ok.mp applied
      exact .inr ⟨_,_,_,middle,rfl,taken,first,⟨behind,tail⟩,_,last,after,further,second,unknown⟩
  · rintro (⟨rfl,rfl,unknown⟩ | ⟨tail,clauses,next,middle,rfl,taken,first,later⟩)
    · exact ⟨⟨rest,rfl⟩,[],mode,net,.none mode,rfl,unknown⟩
    · obtain ⟨⟨behind,stands⟩,further,last,after,passes,second,unknown⟩ := later
      refine ⟨⟨behind,by rw [stands]; rfl⟩,clauses ++ further,last,after,.one taken passes,?_,unknown⟩
      rw [List.foldlM_append,first]
      exact second

theorem reaches_later (taken : step mode token = ⟨clauses,.ok next⟩)
    (applied : clauses.foldlM (apply false) net = .ok after) (passed : ¬ Unknown net mode token) :
    Reaches net mode (token :: rest) front other ↔
      ∃ tail, front = token :: tail ∧ Reaches after next rest tail other := by
  rw [reaches_exact]
  constructor
  · rintro (⟨_,_,here⟩ | ⟨tail,_,_,_,same,again,first,later⟩)
    · exact absurd here passed
    · rw [taken] at again
      cases again
      rw [applied] at first
      cases first
      exact ⟨tail,same,later⟩
  · rintro ⟨tail,same,later⟩
    exact .inr ⟨tail,clauses,next,after,same,taken,applied,later⟩

theorem reaches_stuck {result : Except ParseError Mode} (taken : step mode token = ⟨clauses,result⟩)
    (passed : ¬ Unknown net mode token)
    (stuck : ∀ next after, result = .ok next → clauses.foldlM (apply false) net ≠ .ok after) :
    ¬ Reaches net mode (token :: rest) front other := by
  intro reaches
  rcases reaches_exact.mp reaches with ⟨_,_,here⟩ | ⟨_,_,next,after,_,again,applied,_⟩
  · exact passed here
  · rw [taken] at again
    cases again
    exact stuck next after rfl applied

def ReachesFirst (net : Net) (mode : Mode) (tokens front : List Token) (token : Token) : Prop :=
  Reaches net mode tokens front token ∧
    ∀ shorter other, Reaches net mode tokens shorter other → front.length ≤ shorter.length

theorem first_later (taken : step mode token = ⟨clauses,.ok next⟩)
    (applied : clauses.foldlM (apply false) net = .ok after) (passed : ¬ Unknown net mode token)
    (first : ReachesFirst after next rest front other) :
    ReachesFirst net mode (token :: rest) (token :: front) other := by
  refine ⟨(reaches_later taken applied passed).mpr ⟨front,rfl,first.1⟩,fun shorter another reaches => ?_⟩
  obtain ⟨tail,rfl,later⟩ := (reaches_later taken applied passed).mp reaches
  exact Nat.succ_le_succ (first.2 tail another later)

theorem first_unique {one two : List Token} (first : ReachesFirst net mode tokens one token)
    (second : ReachesFirst net mode tokens two other) : token = other := by
  obtain ⟨⟨rest,stands⟩,_⟩ := first.1
  obtain ⟨⟨more,again⟩,_⟩ := second.1
  have length := Nat.le_antisymm (first.2 two other second.1) (second.2 one token first.1)
  exact (List.cons.inj (List.append_inj (stands.symm.trans again) length).2).1

-- Strict reading ends at the first such name and else as lenient reading does.
def StrictOutcome (net : Net) (mode : Mode) (tokens : List Token) : Prop :=
  (∃ front token, ReachesFirst net mode tokens front token ∧
    Reader.run true net mode tokens = .error (.undeclared token)) ∨
    (∀ front token, ¬ Reaches net mode tokens front token) ∧
      Reader.run true net mode tokens = Reader.run false net mode tokens

theorem outcome_later (taken : step mode token = ⟨clauses,.ok next⟩)
    (applied : clauses.foldlM (apply false) net = .ok after)
    (same : clauses.foldlM (apply true) net = clauses.foldlM (apply false) net)
    (passed : ¬ Unknown net mode token) (later : StrictOutcome after next rest) :
    StrictOutcome net mode (token :: rest) := by
  have runs (strict : Bool) (fits : clauses.foldlM (apply strict) net = .ok after) :
      Reader.run strict net mode (token :: rest) = Reader.run strict after next rest := by
    rw [Reader.run,taken]
    dsimp only
    rw [fits]
    rfl
  rw [StrictOutcome,runs true (same.trans applied),runs false applied]
  rcases later with ⟨front,other,first,refused⟩ | ⟨none,agrees⟩
  · exact .inl ⟨token :: front,other,first_later taken applied passed first,refused⟩
  · refine .inr ⟨fun front other reaches => ?_,agrees⟩
    obtain ⟨tail,_,reached⟩ := (reaches_later taken applied passed).mp reaches
    exact none tail other reached

theorem ranked_outcome (ranks : mode.Ranks) (kind : token.kind = .ident)
    (later : ∀ next, StrictOutcome net next rest) : StrictOutcome net mode (token :: rest) := by
  obtain ⟨next,taken⟩ := step_ranks ranks kind
  by_cases known : token.text ∈ net.transitions
  · have fits (strict : Bool) : [Clause.mention token].foldlM (apply strict) net = .ok net := by
      rw [List.foldlM_cons,apply_known strict known]
      rfl
    exact outcome_later taken (fits false) ((fits true).trans (fits false).symm) (fun here => here.2.2 known) (later next)
  · have here : Reaches net mode (token :: rest) [] token := reaches_exact.mpr (.inl ⟨rfl,rfl,ranks,kind,known⟩)
    refine .inl ⟨[],token,⟨here,fun _ _ _ => Nat.zero_le _⟩,?_⟩
    rw [Reader.run_emits taken,apply_unknown known]
    rfl

theorem plain_outcome (plain : ¬ (mode.Ranks ∧ token.kind = .ident))
    (later : ∀ after next, StrictOutcome after next rest) :
    StrictOutcome net mode (token :: rest) := by
  have passed : ¬ Unknown net mode token := fun here => plain ⟨here.1,here.2.1⟩
  have silent := (step_plain mode token plain).silent
  rcases taken : step mode token with ⟨clauses,result⟩
  rw [taken] at silent
  have same := run_silent net clauses silent
  cases applied : clauses.foldlM (apply false) net with
  | error reason =>
    refine .inr ⟨fun _ _ => reaches_stuck taken passed (fun _ _ _ => by simp [applied]),?_⟩
    rw [Reader.run,Reader.run,taken]
    dsimp only
    rw [same,applied]
    rfl
  | ok after =>
    cases result with
    | error reason =>
      refine .inr ⟨fun _ _ => reaches_stuck taken passed (fun _ _ leads => by cases leads),?_⟩
      rw [Reader.run,Reader.run,taken]
      dsimp only
      rw [same]
    | ok next => exact outcome_later taken applied same passed (later after next)

theorem run_outcome (net : Net) (mode : Mode) (tokens : List Token) : StrictOutcome net mode tokens := by
  induction tokens generalizing net mode with
  | nil =>
    refine .inr ⟨fun front token reaches => ?_,rfl⟩
    obtain ⟨rest,stands⟩ := reaches.stands
    simp at stands
  | cons token rest ih =>
    by_cases ranked : mode.Ranks ∧ token.kind = .ident
    · exact ranked_outcome ranked.1 ranked.2 fun next => ih net next
    · exact plain_outcome ranked ih

theorem passes_measured {last : Mode} (stands : Script.tokens text = front ++ rest)
    (passes : Passes .top front clauses last) : ∀ clause ∈ clauses, clause.Measured := by
  intro clause member
  have reading := passes_reading passes rest
  rw [← stands] at reading
  refine ((readingOf_admissible text).clauses clause ?_).measured
  change clause ∈ (readingFrom .top (Script.tokens text)).clauses
  rw [reading]
  exact List.mem_append_left _ member

theorem reaches_undeclared : Reaches empty .top (Script.tokens text) front token ↔ Undeclared text front token := by
  have names {clauses : List Clause} {last : Mode} {after : Net} {rest : List Token}
      (stands : Script.tokens text = front ++ rest) (passes : Passes .top front clauses last)
      (applied : clauses.foldlM (apply false) empty = .ok after) :
      token.text ∈ after.transitions ↔ token.text ∈ clauses.flatMap Clause.transitionNames := by
    have named := (run_named clauses (passes_measured stands passes) applied).transitions
    rw [← Array.mem_toList_iff,named.trans (addNames_first [] _),List.nil_append,List.mem_eraseDups]
  constructor
  · rintro ⟨⟨rest,stands⟩,clauses,last,after,passes,applied,ranks,name,unknown⟩
    have unmentioned := (names stands passes applied).not.mp unknown
    exact ⟨⟨rest,stands⟩,name,clauses,last,after,passes,ranks,applied,unmentioned⟩
  · rintro ⟨⟨rest,stands⟩,name,clauses,last,after,passes,ranks,applied,unmentioned⟩
    have unknown := (names stands passes applied).not.mpr unmentioned
    exact ⟨⟨rest,stands⟩,clauses,last,after,passes,applied,ranks,name,unknown⟩

theorem parse_lenient (text : String) (token : Token) : (parse false text).value ≠ .error (.undeclared token) := by
  intro failed
  rcases parse_refused false text _ failed with ⟨clause,_,refused⟩ | breaks
  · cases refused with
    | undeclared strictly => cases strictly
  · obtain ⟨_,other,_,_,last,_,_,stops⟩ := reading_breaks _ breaks
    cases step_refused last other _ stops

theorem parse_strict (text : String) :
    ((∀ token, (parse true text).value ≠ .error (.undeclared token)) → parse true text = parse false text) ∧
      ∀ token, (parse true text).value = .error (.undeclared token) ↔
        ∃ front, Undeclared text front token ∧
          ∀ shorter other, Undeclared text shorter other → front.length ≤ shorter.length := by
  refine ⟨fun declared => ?_,fun token => ?_⟩
  · rcases applyAll_strict empty (readingOf text).clauses with ⟨token,refused⟩ | agrees
    · refine absurd ?_ (declared token)
      unfold parse ofReading Logged.andThen
      rw [refused]
      rfl
    · unfold parse ofReading
      rw [agrees]
  · simp only [← reaches_undeclared]
    rw [Reader.parse_run]
    rcases run_outcome empty .top (tokens text) with ⟨front,other,first,refused⟩ | ⟨none,agrees⟩
    · rw [refused]
      constructor
      · intro same
        cases same
        exact ⟨front,first⟩
      · rintro ⟨_,again⟩
        rw [first_unique first again]
    · rw [agrees,← Reader.parse_run]
      refine ⟨fun failed => absurd failed (parse_lenient text token),?_⟩
      rintro ⟨front,reaches,_⟩
      exact absurd reaches (none front token)

-- The name may stand in the second list of a priority. Names that were declared are read
-- alike.
theorem parse_strict_late :
    (parse true "tr a pr a > c").value = .error (.undeclared ⟨.ident,"c",⟨1,13⟩⟩) ∧
      (∃ front, Undeclared "tr a pr a > c" front ⟨.ident,"c",⟨1,13⟩⟩) ∧
      (∀ token, (parse true "tr a pr a > a").value ≠ .error (.undeclared token)) ∧
      parse true "tr a pr a > a" = parse false "tr a pr a > a" := by
  have refused : (parse true "tr a pr a > c").value = .error (.undeclared ⟨.ident,"c",⟨1,13⟩⟩) := by cbv
  obtain ⟨front,undeclared,_⟩ := ((parse_strict "tr a pr a > c").2 _).mp refused
  have declared : ∀ token, (parse true "tr a pr a > a").value ≠ .error (.undeclared token) := by
    intro token failed
    have fits : (parse true "tr a pr a > a").value.isOk = true := by cbv
    rw [failed] at fits
    cases fits
  exact ⟨refused,⟨front,undeclared⟩,declared,(parse_strict "tr a pr a > a").1 declared⟩

end Net

end TimePetri
