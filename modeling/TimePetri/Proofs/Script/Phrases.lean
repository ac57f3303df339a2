import Mathlib.Computability.RegularExpressions
import TimePetri.Proofs.Script.Drafts

namespace TimePetri.Script

open RegularExpression (char)

-- The kinds of tokens in the order in which they may stand in a text.
abbrev Pattern := RegularExpression Kind

def optional (pattern : Pattern) : Pattern := 1 + pattern

def repeated (pattern : Pattern) : Pattern := pattern * pattern.star

def inputMarks : Pattern := optional (char .star + char .read + char .inhibitor)

def outputMarks : Pattern := optional (char .star)

def inputArc : Pattern := char .ident * inputMarks

def outputArc : Pattern := char .ident * outputMarks

def netPhrase : Pattern := char .net * char .ident

def transitionPhrase : Pattern :=
  char .transition * char .ident * optional (char .label) * optional (char .interval) * inputArc.star *
    optional (char .arrow * outputArc.star)

def placePhrase : Pattern :=
  char .place * char .ident * optional (char .label) * optional (char .marking) * outputArc.star *
    optional (char .arrow * inputArc.star)

def operator : Pattern := char .gt + char .lt

def priorityPhrase : Pattern := char .priority * repeated (char .ident) * operator * repeated (char .ident)

def notePhrase : Pattern := char .note * char .ident * char .int * char .ident

def phrase : Pattern := netPhrase + transitionPhrase + placePhrase + priorityPhrase + notePhrase

-- A text is any number of phrases. Its end counts as a token.
def sentence : Pattern := phrase.star * char .eof

def Viable (kinds : List Kind) : Prop := ∃ more, kinds ++ more ∈ sentence.matches'

def ahead (pattern : Pattern) (kind : Kind) : Language Kind := (pattern.deriv kind).matches'

theorem ahead_exact (pattern : Pattern) (kind : Kind) (kinds : List Kind) :
    kind :: kinds ∈ pattern.matches' ↔ kinds ∈ ahead pattern kind := by
  rw [ahead,← RegularExpression.rmatch_iff_matches',← RegularExpression.rmatch_iff_matches']
  rfl

variable {p q : Pattern} {kind : Kind}

theorem ahead_same (same : p.matches' = q.matches') (kind : Kind) : ahead p kind = ahead q kind := by
  ext kinds
  rw [← ahead_exact,← ahead_exact,same]

theorem ahead_char (a kind : Kind) : ahead (char a) kind = if kind = a then 1 else 0 := by
  unfold ahead
  split
  · next same => rw [same]; simp
  · next other => simp [RegularExpression.deriv_char_of_ne (Ne.symm other)]

theorem ahead_add (p q : Pattern) (kind : Kind) : ahead (p + q) kind = ahead p kind + ahead q kind := rfl

theorem ahead_optional (p : Pattern) (kind : Kind) : ahead (optional p) kind = ahead p kind := by
  simp [ahead,optional]

theorem ahead_mul (solid : p.matchEpsilon = false) (q : Pattern) (kind : Kind) :
    ahead (p * q) kind = ahead p kind * q.matches' := by
  simp [ahead,RegularExpression.deriv,solid]

theorem ahead_char_mul (a : Kind) (q : Pattern) (kind : Kind) :
    ahead (char a * q) kind = if kind = a then q.matches' else 0 := by
  rw [ahead_mul rfl,ahead_char,ite_mul,one_mul,zero_mul]

theorem ahead_nullable_mul (nullable : p.matchEpsilon = true) (q : Pattern) (kind : Kind) :
    ahead (p * q) kind = ahead p kind * q.matches' + ahead q kind := by
  simp [ahead,RegularExpression.deriv,nullable]

theorem ahead_optional_mul (p q : Pattern) (kind : Kind) :
    ahead (optional p * q) kind = ahead p kind * q.matches' + ahead q kind := by
  rw [ahead_nullable_mul (by rfl),ahead_optional]

theorem ahead_star (p : Pattern) (kind : Kind) : ahead p.star kind = ahead p kind * p.star.matches' := rfl

theorem ahead_star_mul (p q : Pattern) (kind : Kind) :
    ahead (p.star * q) kind = ahead p kind * (p.star.matches' * q.matches') + ahead q kind := by
  rw [ahead_nullable_mul (by rfl),ahead_star,mul_assoc]

theorem ahead_assoc (p q r : Pattern) (kind : Kind) : ahead (p * q * r) kind = ahead (p * (q * r)) kind :=
  ahead_same (by simp [mul_assoc]) kind

theorem ahead_char_then (a : Kind) (q : Pattern) (kind : Kind) :
    ahead (char a * q * sentence) kind = if kind = a then (q * sentence).matches' else 0 := by
  rw [ahead_assoc,ahead_char_mul]

theorem ahead_option (a : Kind) (q r : Pattern) (kind : Kind) :
    ahead (optional (char a) * q * r) kind = (if kind = a then (q * r).matches' else 0) + ahead (q * r) kind := by
  rw [ahead_assoc,ahead_optional_mul,ahead_char,ite_mul,one_mul,zero_mul]

def nameList (some : Bool) : Pattern := if some then (char Kind.ident).star else repeated (char .ident)

theorem nameList_ahead (some : Bool) (q : Pattern) (kind : Kind) : ahead (nameList some * q) kind =
    (if kind = .ident then (nameList true * q).matches' else 0) + if some then ahead q kind else 0 := by
  cases some with
  | true =>
    rw [nameList,if_pos rfl,ahead_star_mul,ahead_char,ite_mul,one_mul,zero_mul]
    rfl
  | false =>
    change ahead (char Kind.ident * (char Kind.ident).star * q) kind = _
    rw [ahead_assoc,ahead_char_mul]
    simp [nameList]

def Owner.marks (owner : Owner) (after : Bool) : Pattern := if owner.takes after then inputMarks else outputMarks

def Owner.arcs (owner : Owner) (after : Bool) : Pattern := (char Kind.ident * owner.marks after).star

def Owner.flow (owner : Owner) : Pattern := owner.arcs false * optional (char .arrow * owner.arcs true)

def Owner.rest (owner : Owner) : Stage → Pattern
  | .named => optional (char .label) * (optional (char owner.measureKind) * owner.flow)
  | .labelled => optional (char owner.measureKind) * owner.flow
  | .measured => owner.flow
  | .before => owner.flow
  | .after => owner.arcs true

-- What completes the phrase that a text stands in.
def Mode.phrase : Mode → Pattern
  | .top => 1
  | .netName => char .ident
  | .transitionName => char .ident * (Owner.transition "").rest .named
  | .placeName => char .ident * (Owner.place "").rest .named
  | .body owner stage => owner.rest stage
  | .arc owner stage _ => owner.marks (stage = .after) * owner.rest stage
  | .upper first => nameList (first ≠ []) * (operator * nameList false)
  | .lower _ _ second => nameList (second ≠ [])
  | .noteName => char .ident * (char .int * char .ident)
  | .noteLevel => char .int * char .ident
  | .noteText => char .ident

def Mode.rest (mode : Mode) : Language Kind := (mode.phrase * sentence).matches'

theorem phrase_ahead (kind : Kind) : ahead phrase kind =
    (if kind = .net then Mode.netName.phrase.matches' else 0) +
      (if kind = .transition then Mode.transitionName.phrase.matches' else 0) +
      (if kind = .place then Mode.placeName.phrase.matches' else 0) +
      (if kind = .priority then (Mode.upper []).phrase.matches' else 0) +
      if kind = .note then Mode.noteName.phrase.matches' else 0 := by
  have same : phrase.matches' = RegularExpression.matches' (char Kind.net * Mode.netName.phrase +
      char Kind.transition * Mode.transitionName.phrase + char Kind.place * Mode.placeName.phrase +
      char Kind.priority * (Mode.upper []).phrase + char Kind.note * Mode.noteName.phrase) := by
    simp [phrase,netPhrase,transitionPhrase,placePhrase,priorityPhrase,notePhrase,inputArc,outputArc,nameList,Mode.phrase,
      Owner.rest,Owner.flow,Owner.arcs,Owner.marks,Owner.takes,Owner.measureKind,mul_assoc]
  rw [ahead_same same]
  simp only [ahead_add,ahead_char_mul]

theorem sentence_ahead (kind : Kind) : ahead sentence kind =
    (if kind = .net then Mode.netName.rest else 0) + (if kind = .transition then Mode.transitionName.rest else 0) +
      (if kind = .place then Mode.placeName.rest else 0) + (if kind = .priority then (Mode.upper []).rest else 0) +
      (if kind = .note then Mode.noteName.rest else 0) + if kind = .eof then 1 else 0 := by
  have whole : phrase.star.matches' * (char Kind.eof).matches' = sentence.matches' := rfl
  rw [sentence,ahead_star_mul,phrase_ahead,ahead_char,whole]
  simp only [add_mul,ite_mul,zero_mul,Mode.rest,RegularExpression.matches'_mul]

theorem arcs_ahead (owner : Owner) (after : Bool) (q : Pattern) (kind : Kind) : ahead (owner.arcs after * q) kind =
    (if kind = .ident then (owner.marks after * (owner.arcs after * q)).matches' else 0) + ahead q kind := by
  rw [Owner.arcs,ahead_star_mul,ahead_char_mul,ite_mul,zero_mul]
  rfl

theorem flow_ahead (owner : Owner) (kind : Kind) : ahead (owner.flow * sentence) kind =
    (if kind = .ident then (owner.marks false * (owner.flow * sentence)).matches' else 0) +
      (if kind = .arrow then (owner.arcs true * sentence).matches' else 0) + ahead sentence kind := by
  rw [Owner.flow,ahead_assoc,arcs_ahead,ahead_optional_mul,ahead_char_mul,ite_mul,zero_mul,add_assoc]
  simp only [RegularExpression.matches'_mul,mul_assoc]

theorem body_ahead (owner : Owner) (stage : Stage) (name : Token) (kind : Kind) :
    ahead (owner.rest stage * sentence) kind =
    (if kind = .label ∧ stage = .named then (Mode.body owner .labelled).rest else 0) +
      (if kind = owner.measureKind ∧ (stage = .named ∨ stage = .labelled) then (Mode.body owner .measured).rest else 0) +
      (if kind = .ident then (Mode.arc owner stage.arcs name).rest else 0) +
      (if kind = .arrow ∧ stage ≠ .after then (Mode.body owner .after).rest else 0) + ahead sentence kind := by
  cases stage with
  | after => simp [Mode.rest,Mode.phrase,Owner.rest,Stage.arcs,arcs_ahead,mul_assoc]
  | before => simp [Mode.rest,Mode.phrase,Owner.rest,Stage.arcs,flow_ahead,mul_assoc]
  | measured => simp [Mode.rest,Mode.phrase,Owner.rest,Stage.arcs,flow_ahead,mul_assoc]
  | labelled => simp [Mode.rest,Mode.phrase,Owner.rest,Stage.arcs,ahead_option,flow_ahead,mul_assoc,add_assoc]
  | named => simp [Mode.rest,Mode.phrase,Owner.rest,Stage.arcs,ahead_option,flow_ahead,mul_assoc,add_assoc]

theorem label_ahead (owner : Owner) (stage : Stage) : ahead (owner.rest stage * sentence) .label =
    if stage = .named then (Mode.body owner .labelled).rest else 0 := by
  rw [body_ahead owner stage ⟨.ident,"",.start⟩,sentence_ahead]
  cases owner <;> simp [Owner.measureKind]

theorem measure_ahead (owner : Owner) (stage : Stage) : ahead (owner.rest stage * sentence) owner.measureKind =
    if stage = .named ∨ stage = .labelled then (Mode.body owner .measured).rest else 0 := by
  rw [body_ahead owner stage ⟨.ident,"",.start⟩,sentence_ahead]
  cases owner <;> simp [Owner.measureKind]

theorem ident_ahead (owner : Owner) (stage : Stage) (name : Token) : ahead (owner.rest stage * sentence) .ident =
    (Mode.arc owner stage.arcs name).rest := by
  rw [body_ahead owner stage name,sentence_ahead]
  cases owner <;> simp [Owner.measureKind]

theorem arrow_ahead (owner : Owner) (stage : Stage) : ahead (owner.rest stage * sentence) .arrow =
    if stage = .after then 0 else (Mode.body owner .after).rest := by
  rw [body_ahead owner stage ⟨.ident,"",.start⟩,sentence_ahead]
  cases owner <;> simp [Owner.measureKind]

theorem closed_ahead (owner : Owner) (stage : Stage) (label : kind ≠ .label) (measure : kind ≠ owner.measureKind)
    (ident : kind ≠ .ident) (arrow : kind ≠ .arrow) : ahead (owner.rest stage * sentence) kind = ahead sentence kind := by
  rw [body_ahead owner stage ⟨.ident,"",.start⟩]
  simp [label,measure,ident,arrow]

theorem arc_ahead (owner : Owner) (stage : Stage) (name : Token) (kind : Kind) :
    ahead ((Mode.arc owner stage name).phrase * sentence) kind =
      ahead (owner.marks (stage = .after)) kind * (Mode.body owner stage).rest + ahead (owner.rest stage * sentence) kind := by
  have nullable : (owner.marks (stage = .after)).matchEpsilon = true := by
    unfold Owner.marks
    split <;> rfl
  rw [Mode.phrase,ahead_assoc,ahead_nullable_mul nullable]
  rfl

theorem marks_ahead (owner : Owner) (after : Bool) (kind : Kind) : ahead (owner.marks after) kind =
    match decoration? kind with
    | some decoration => if decoration = .plain ∨ owner.takes after then 1 else 0
    | none => 0 := by
  unfold Owner.marks
  split
  · next takes =>
    rw [inputMarks,ahead_optional,ahead_add,ahead_add,ahead_char,ahead_char,ahead_char]
    cases kind <;> simp [decoration?,takes]
  · next takes =>
    rw [outputMarks,ahead_optional,ahead_char]
    cases kind <;> simp [decoration?,takes]

theorem decorated_ahead {decoration : Decoration} (owner : Owner) (stage : Stage) (name : Token)
    (decorated : decoration? kind = some decoration) : ahead ((Mode.arc owner stage name).phrase * sentence) kind =
      if decoration = .plain ∨ owner.takes (stage = .after) then (Mode.body owner stage).rest else 0 := by
  have none : ahead (owner.rest stage * sentence) kind = 0 := by
    rw [body_ahead owner stage name,sentence_ahead]
    cases kind <;> cases owner <;> simp [decoration?,Owner.measureKind] at decorated ⊢
  rw [arc_ahead,marks_ahead,decorated,none]
  simp

theorem bare_ahead (owner : Owner) (stage : Stage) (name : Token) (bare : decoration? kind = none) :
    ahead ((Mode.arc owner stage name).phrase * sentence) kind = ahead (owner.rest stage * sentence) kind := by
  rw [arc_ahead,marks_ahead,bare]
  simp

theorem upper_ahead (first : List String) (order : Order) (kind : Kind) :
    ahead ((Mode.upper first).phrase * sentence) kind =
    (if kind = .ident then (Mode.upper (first ++ [""])).rest else 0) +
      if first ≠ [] ∧ (kind = .gt ∨ kind = .lt) then (Mode.lower first order []).rest else 0 := by
  have operators : ahead (operator * nameList false * sentence) kind =
      if kind = .gt ∨ kind = .lt then (nameList false * sentence).matches' else 0 := by
    rw [ahead_assoc,ahead_mul rfl,operator,ahead_add,ahead_char,ahead_char]
    cases kind <;> simp
  rw [Mode.phrase,ahead_assoc,nameList_ahead,operators]
  by_cases none : first = [] <;> simp [none,Mode.rest,Mode.phrase,mul_assoc]

theorem lower_ahead (first second : List String) (order : Order) (kind : Kind) :
    ahead ((Mode.lower first order second).phrase * sentence) kind =
      (if kind = .ident then (Mode.lower first order (second ++ [""])).rest else 0) +
        if second ≠ [] then ahead sentence kind else 0 := by
  rw [Mode.phrase,nameList_ahead]
  simp [Mode.rest,Mode.phrase]

end TimePetri.Script
