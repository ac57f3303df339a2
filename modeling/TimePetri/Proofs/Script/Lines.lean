import TimePetri.Proofs.Script.Declarations
import TimePetri.Proofs.Script.Drafts
import TimePetri.Proofs.Script.Intervals

namespace TimePetri.Script

-- An arc as it stands in the line of a transition: its place, its use and its weight.
structure Arc where
  name : String
  use : Use
  weight : Int64

namespace Arc

def decoration (arc : Arc) : Kind :=
  match arc.use with
  | .inhibit => .inhibitor
  | .test => .read
  | _ => .star

def bare (arc : Arc) : Bool := (arc.use = .consume || arc.use = .produce) && arc.weight = 1

def nameToken (arc : Arc) : Token := glyph .ident arc.name.toList

def weightToken (arc : Arc) : Token := glyph arc.decoration (digits arc.weight)

def tokens (arc : Arc) : List Token := if arc.bare then [arc.nameToken] else [arc.nameToken,arc.weightToken]

def clause (transition : String) (arc : Arc) : Clause :=
  .arc arc.name transition arc.use arc.weight (if arc.bare then arc.nameToken else arc.weightToken)

end Arc

variable {arc : Arc} {arcs : List Arc} {name : String} {stage : Stage} {rest : List Token}

theorem ident_undecorated (shown : List Char) (more : List Token) : Undecorated (glyph .ident shown :: more) :=
  ⟨_,_,rfl,rfl,by simp [glyph]⟩

theorem arrow_undecorated (more : List Token) : Undecorated (glyph .arrow ['-','>'] :: more) :=
  ⟨_,_,rfl,rfl,by simp [glyph]⟩

theorem arc_tokens_undecorated (arc : Arc) (more : List Token) : Undecorated (arc.tokens ++ more) := by
  unfold Arc.tokens
  split
  · exact ident_undecorated _ _
  · exact ident_undecorated _ _

theorem arcs_undecorated (arcs : List Arc) (undecorated : Undecorated rest) :
    Undecorated (arcs.flatMap Arc.tokens ++ rest) := by
  cases arcs with
  | nil => exact undecorated
  | cons arc more =>
    rw [List.flatMap_cons,List.append_assoc]
    exact arc_tokens_undecorated arc _

def Arc.Fits (stage : Stage) (arc : Arc) : Prop := (arc.use = .produce ↔ stage = .after) ∧ 0 ≤ arc.weight.toInt

theorem bare_use (name : String) (fits : arc.Fits stage) (bare : arc.bare = true) :
    arcUse (.transition name) stage.arcs .plain = .ok arc.use ∧ arc.weight = 1 := by
  obtain ⟨uses,one⟩ : (arc.use = .consume ∨ arc.use = .produce) ∧ arc.weight = 1 := by simpa [Arc.bare] using bare
  refine ⟨?_,one⟩
  obtain ⟨produces,_⟩ := fits
  rcases uses with use | use
  · have before : stage ≠ .after := fun after => by rw [use] at produces; cases produces.mpr after
    rw [use,Stage.arcs,if_neg before]
    rfl
  · rw [use,Stage.arcs,if_pos (produces.mp use)]
    rfl

theorem decorated_use (name : String) (fits : arc.Fits stage) :
    ∃ decoration, decoration? arc.decoration = some decoration ∧
    arcUse (.transition name) stage.arcs decoration = .ok arc.use := by
  obtain ⟨produces,_⟩ := fits
  unfold Arc.decoration Stage.arcs
  cases use : arc.use with
  | produce => rw [if_pos (produces.mp use)]; exact ⟨.plain,rfl,rfl⟩
  | consume =>
    rw [if_neg fun after => by rw [use] at produces; cases produces.mpr after]
    exact ⟨.plain,rfl,rfl⟩
  | test =>
    rw [if_neg fun after => by rw [use] at produces; cases produces.mpr after]
    exact ⟨.read,rfl,rfl⟩
  | inhibit =>
    rw [if_neg fun after => by rw [use] at produces; cases produces.mpr after]
    exact ⟨.inhibitor,rfl,rfl⟩

theorem readWeight_digits (kind : Kind) (w : Int64) (nonneg : 0 ≤ w.toInt) :
    readWeight (glyph kind (digits w)) = .ok w := by
  unfold readWeight glyph
  dsimp only
  rw [readNumber_digits nonneg]
  rfl

theorem decoration_legal (arc : Arc) : arc.weightToken.kind ≠ .illegal := by
  unfold Arc.weightToken Arc.decoration glyph
  cases arc.use <;> simp

theorem step_decorated (name : String) (fits : arc.Fits stage) (decorated : arc.bare = false) :
    step (.arc (.transition name) stage.arcs arc.nameToken) arc.weightToken =
      ⟨[arc.clause name],.ok (.body (.transition name) stage.arcs)⟩ := by
  obtain ⟨decoration,same,use⟩ := decorated_use name fits
  change (if arc.weightToken.kind = .illegal then _ else stepArc _ stage.arcs arc.nameToken arc.weightToken) = _
  rw [if_neg (decoration_legal arc)]
  unfold stepArc
  rw [show decoration? arc.weightToken.kind = some decoration from same]
  dsimp only
  rw [show readWeight arc.weightToken = .ok arc.weight from readWeight_digits _ _ fits.2,ok_bind,use]
  simp [Arc.clause,decorated,Arc.nameToken,glyph,Step.ofExcept,emit,arcOf]

theorem reading_arc (name : String) (fits : arc.Fits stage) (undecorated : Undecorated rest) :
    readingFrom (.body (.transition name) stage) (arc.tokens ++ rest) =
      (readingFrom (.body (.transition name) stage.arcs) rest).prepend [arc.clause name] := by
  have pending : step (.body (.transition name) stage) arc.nameToken =
      ⟨[],.ok (.arc (.transition name) stage.arcs arc.nameToken)⟩ := rfl
  unfold Arc.tokens
  cases bare : arc.bare with
  | true =>
    obtain ⟨use,one⟩ := bare_use name fits bare
    rw [if_pos rfl,List.cons_append,reading_step pending,List.nil_append,arc_undecorated _ _ use undecorated]
    simp [Arc.clause,bare,one,arcOf,Arc.nameToken,glyph]
  | false =>
    rw [if_neg (by simp),List.cons_append,reading_step pending,List.cons_append,
      reading_step (step_decorated name fits bare),prepend_prepend]
    rfl

theorem arcs_fits (fits : arc.Fits stage) : arc.Fits stage.arcs := by
  refine ⟨fits.1.trans ?_,fits.2⟩
  cases stage <;> simp [Stage.arcs]

theorem reading_arcs (name : String) (arcs : List Arc) (fits : ∀ arc ∈ arcs, arc.Fits stage)
    (undecorated : Undecorated rest)
    (kept : stage.arcs = stage) :
    readingFrom (.body (.transition name) stage) (arcs.flatMap Arc.tokens ++ rest) =
      (readingFrom (.body (.transition name) stage) rest).prepend (arcs.map (Arc.clause name)) := by
  induction arcs with
  | nil => rfl
  | cons arc more ih =>
    have here := reading_arc name (fits arc (by simp)) (arcs_undecorated more undecorated)
    rw [kept] at here
    rw [List.flatMap_cons,List.append_assoc,here,ih fun other member => fits other (List.mem_cons_of_mem _ member),
      prepend_prepend]
    rfl

theorem reading_inputs (name : String) (arcs : List Arc) (fits : ∀ arc ∈ arcs, arc.Fits stage)
    (before : stage ≠ .after)
    (rest : List Token) :
    readingFrom (.body (.transition name) stage) (arcs.flatMap Arc.tokens ++ glyph .arrow ['-','>'] :: rest) =
      (readingFrom (.body (.transition name) .after) rest).prepend (arcs.map (Arc.clause name)) := by
  have arrow : ∀ stage ≠ Stage.after, readingFrom (.body (.transition name) stage) (glyph .arrow ['-','>'] :: rest) =
      readingFrom (.body (.transition name) .after) rest := by
    intro stage before
    rw [@reading_step _ (.body (.transition name) .after) _ [],prepend_nil]
    unfold step
    rw [if_neg (by simp [glyph])]
    change stepTransition name stage (glyph .arrow ['-','>']) = _
    unfold stepTransition glyph
    dsimp only
    rw [if_neg before]
    rfl
  have moved : stage.arcs = .before := if_neg before
  cases arcs with
  | nil => exact (arrow stage before).trans rfl
  | cons arc more =>
    have first := reading_arc name (fits arc (by simp)) (arcs_undecorated more (arrow_undecorated rest))
    have later : ∀ other ∈ more, other.Fits .before :=
      fun other member => moved ▸ arcs_fits (fits other (List.mem_cons_of_mem _ member))
    rw [moved] at first
    rw [List.flatMap_cons,List.append_assoc,first,reading_arcs name more later (arrow_undecorated rest) rfl,
      arrow .before (by simp),prepend_prepend]
    rfl

theorem reading_outputs (name : String) (arcs : List Arc) (fits : ∀ arc ∈ arcs, arc.Fits .after)
    (opening : Opens rest) :
    readingFrom (.body (.transition name) .after) (arcs.flatMap Arc.tokens ++ rest) =
      (readingFrom .top rest).prepend (arcs.map (Arc.clause name)) := by
  rw [reading_arcs name arcs fits (opens_undecorated opening) rfl,body_opens _ _ opening]

def labelTokens (label : String) : List Token := if label = "" then [] else [glyph .label label.toList]

def markTokens (count : Int64) : List Token := if count = 0 then [] else [glyph .marking (digits count)]

def timeTokens (interval : Interval) : List Token :=
  if interval.isTrivial then [] else [glyph .interval interval.shown]

def nameTokens (names : List String) : List Token := names.map fun name => glyph .ident name.toList

def placeClauses (name label : String) (count : Int64) : List Clause :=
  .place name :: ((if label = "" then [] else [.placeLabel name label]) ++
    if count = 0 then [] else [.marking name count (glyph .marking (digits count))])

def transitionClauses (name label : String) (interval : Interval) (arcs : List Arc) : List Clause :=
  .transition name :: ((if label = "" then [] else [.transitionLabel name label]) ++
    (if interval.isTrivial then [] else [.interval name interval (glyph .interval interval.shown)]) ++
    arcs.map (Arc.clause name))

def mentions (names : List String) : List Clause := names.map fun name => .mention (glyph .ident name.toList)

def priorityClauses (name : String) (lower : List String) : List Clause :=
  mentions (name :: lower) ++ [.priority [name] .above lower]

theorem glyph_text (kind : Kind) (text : String) : (glyph kind text.toList).text = text := String.ofList_toList

theorem reading_label (owner : Owner) (label : String) (rest : List Token) :
    readingFrom (.body owner .named) (labelTokens label ++ rest) =
      (readingFrom (.body owner (if label = "" then .named else .labelled)) rest).prepend
        (if label = "" then [] else [labelClause owner label]) := by
  unfold labelTokens
  by_cases none : label = ""
  · simp [none]
  · rw [if_neg none,if_neg none,if_neg none,List.cons_append,List.nil_append]
    refine reading_step ?_ rest
    have stepped : step (.body owner .named) (glyph .label label.toList) =
        emit (labelClause owner (glyph .label label.toList).text) (.body owner .labelled) := by cases owner <;> rfl
    rw [stepped,glyph_text]
    rfl

theorem reading_marking (name : String) (count : Int64) (nonneg : 0 ≤ count.toInt) (stage : Stage)
    (early : stage = .named ∨ stage = .labelled) (opening : Opens rest) :
    readingFrom (.body (.place name) stage) (markTokens count ++ rest) =
      (readingFrom .top rest).prepend (if count = 0 then [] else [.marking name count (glyph .marking (digits count))]) := by
  unfold markTokens
  by_cases none : count = 0
  · rw [if_pos none,if_pos none,prepend_nil]
    exact body_opens _ _ opening
  · rw [if_neg none,if_neg none,List.cons_append,List.nil_append,← body_opens (.place name) .measured opening]
    refine reading_step ?_ rest
    change (if stage = .named ∨ stage = .labelled then Step.ofExcept _ else _) = _
    rw [if_pos early,readWeight_digits _ _ nonneg]
    rfl

theorem reading_place (name label : String) (count : Int64) (nonneg : 0 ≤ count.toInt) (opening : Opens rest) :
    readingFrom .top (glyph .place "pl".toList :: glyph .ident name.toList :: (labelTokens label ++ (markTokens count ++ rest))) =
      (readingFrom .top rest).prepend (placeClauses name label count) := by
  have named : step .placeName (glyph .ident name.toList) = ⟨[.place name],.ok (.body (.place name) .named)⟩ := by
    change emit (.place (glyph .ident name.toList).text) _ = _
    rw [glyph_text]
    rfl
  have early : (if label = "" then Stage.named else .labelled) = .named ∨ (if label = "" then Stage.named else .labelled) = .labelled := by
    by_cases none : label = "" <;> simp [none]
  rw [@reading_step _ .placeName _ _ rfl,reading_step named,reading_label,reading_marking name count nonneg _ early opening]
  simp [placeClauses,labelClause]

theorem reading_time (name : String) (interval : Interval) (stored : interval.Stored) (stage : Stage)
    (early : stage = .named ∨ stage = .labelled) (rest : List Token) :
    ∃ next, next ≠ .after ∧ readingFrom (.body (.transition name) stage) (timeTokens interval ++ rest) =
      (readingFrom (.body (.transition name) next) rest).prepend
        (if interval.isTrivial then [] else [.interval name interval (glyph .interval interval.shown)]) := by
  unfold timeTokens
  cases excludes : interval.isTrivial with
  | true =>
    refine ⟨stage,?_,rfl⟩
    rintro rfl
    rcases early with none | none <;> cases none
  | false =>
    refine ⟨.measured,by simp,?_⟩
    rw [if_neg (by simp),if_neg (by simp),List.cons_append,List.nil_append]
    refine reading_step ?_ rest
    change (if stage = .named ∨ stage = .labelled then Step.ofExcept _ else _) = _
    rw [if_pos early,Interval.readInterval_shown (Interval.stored_declared stored excludes)]
    rfl

theorem reading_transition (name label : String) (interval : Interval) (inputs outputs : List Arc)
    (stored : interval.Stored)
    (takes : ∀ arc ∈ inputs, arc.use ≠ .produce ∧ 0 ≤ arc.weight.toInt)
    (puts : ∀ arc ∈ outputs, arc.use = .produce ∧ 0 ≤ arc.weight.toInt) (opening : Opens rest) :
    readingFrom .top (glyph .transition "tr".toList :: glyph .ident name.toList :: (labelTokens label ++ (timeTokens interval ++
      (inputs.flatMap Arc.tokens ++ glyph .arrow ['-','>'] :: (outputs.flatMap Arc.tokens ++ rest))))) =
      (readingFrom .top rest).prepend (transitionClauses name label interval (inputs ++ outputs)) := by
  have named : step .transitionName (glyph .ident name.toList) =
      ⟨[.transition name],.ok (.body (.transition name) .named)⟩ := by
    change emit (.transition (glyph .ident name.toList).text) _ = _
    rw [glyph_text]
    rfl
  have early : (if label = "" then Stage.named else .labelled) = .named ∨ (if label = "" then Stage.named else .labelled) = .labelled := by
    by_cases none : label = "" <;> simp [none]
  obtain ⟨stage,before,timed⟩ := reading_time name interval stored _ early
    (inputs.flatMap Arc.tokens ++ glyph .arrow ['-','>'] :: (outputs.flatMap Arc.tokens ++ rest))
  have fitsIn : ∀ arc ∈ inputs, arc.Fits stage :=
    fun arc member => ⟨⟨fun puts => absurd puts (takes arc member).1,fun after => absurd after before⟩,(takes arc member).2⟩
  have fitsOut : ∀ arc ∈ outputs, arc.Fits .after :=
    fun arc member => ⟨⟨fun _ => rfl,fun _ => (puts arc member).1⟩,(puts arc member).2⟩
  rw [@reading_step _ .transitionName _ _ rfl,reading_step named,reading_label,timed,
    reading_inputs name inputs fitsIn before,reading_outputs name outputs fitsOut opening]
  simp [transitionClauses,labelClause]

theorem reading_lower (first second lower : List String) (some : second ++ lower ≠ []) (opening : Opens rest) :
    readingFrom (.lower first .above second) (nameTokens lower ++ rest) =
      (readingFrom .top rest).prepend (mentions lower ++ [.priority first .above (second ++ lower)]) := by
  induction lower generalizing second with
  | nil =>
    rw [List.append_nil] at some ⊢
    exact lower_opens first .above second some opening
  | cons name more ih =>
    have mentioned : step (.lower first .above second) (glyph .ident name.toList) =
        ⟨[.mention (glyph .ident name.toList)],.ok (.lower first .above (second ++ [name]))⟩ := by
      change emit _ (.lower first .above (second ++ [(glyph .ident name.toList).text])) = _
      rw [glyph_text]
      rfl
    rw [nameTokens,List.map_cons,List.cons_append,reading_step mentioned]
    rw [show (more.map fun name => glyph .ident name.toList) = nameTokens more from rfl,ih (second ++ [name]) (by simp),
      prepend_prepend,List.append_assoc]
    rfl

theorem reading_priority (name : String) (lower : List String) (some : lower ≠ []) (opening : Opens rest) :
    readingFrom .top (glyph .priority "pr".toList :: glyph .ident name.toList :: glyph .gt ['>'] :: (nameTokens lower ++ rest)) =
      (readingFrom .top rest).prepend (priorityClauses name lower) := by
  have mentioned : step (.upper []) (glyph .ident name.toList) = ⟨[.mention (glyph .ident name.toList)],.ok (.upper [name])⟩ := by
    change emit _ (.upper ([] ++ [(glyph .ident name.toList).text])) = _
    rw [glyph_text]
    rfl
  rw [@reading_step _ (.upper []) _ _ rfl,reading_step mentioned,@reading_step _ (.lower [name] .above []) _ _ rfl,
    reading_lower [name] [] lower some opening,prepend_nil,prepend_prepend,prepend_prepend]
  rfl

end TimePetri.Script
