import TimePetri.Proofs.Print.Lines

namespace TimePetri

open Script

-- Lines that are read as some declarations, whatever declarations follow them.
def Declares (texts : List String) (clauses : List Clause) : Prop :=
  ∀ rest, Opens (glyphs rest) → Opens (glyphs (texts.flatMap String.toList ++ rest)) ∧
    readingFrom .top (glyphs (texts.flatMap String.toList ++ rest)) = (readingFrom .top (glyphs rest)).prepend clauses

theorem declares_nil : Declares [] [] := fun _ opening => ⟨opening,rfl⟩

theorem declares_append {texts more : List String} {clauses later : List Clause} (first : Declares texts clauses)
    (second : Declares more later) : Declares (texts ++ more) (clauses ++ later) := by
  intro rest opening
  obtain ⟨opens,reads⟩ := second rest opening
  obtain ⟨firstOpens,firstReads⟩ := first _ opens
  rw [List.flatMap_append,List.append_assoc]
  refine ⟨firstOpens,?_⟩
  rw [firstReads,reads,prepend_prepend]

theorem declares_flatMap (xs : List α) (texts : α → List String) (clauses : α → List Clause)
    (each : ∀ x ∈ xs, Declares (texts x) (clauses x)) : Declares (xs.flatMap texts) (xs.flatMap clauses) := by
  induction xs with
  | nil => exact declares_nil
  | cons x more ih =>
    rw [List.flatMap_cons,List.flatMap_cons]
    exact declares_append (each x (by simp)) (ih fun y member => each y (List.mem_cons_of_mem _ member))

theorem declares_all {texts : List String} {clauses : List Clause} (declares : Declares texts clauses) :
    readingFrom .top (glyphs (String.join texts).toList) = ⟨clauses,none⟩ := by
  have last : Opens (glyphs []) := by rw [glyphs_end]; exact ⟨_,_,rfl,rfl⟩
  have whole := (declares [] last).2
  rw [glyphs_end,reading_end,List.append_nil] at whole
  rw [String.toList_join,whole]
  simp [Reading.prepend]

theorem opens_glyph (kind : Kind) (shown : List Char) (more : List Token) (opening : opens kind = true) :
    Opens (glyph kind shown :: more) := ⟨_,_,rfl,opening⟩

namespace Net.Flow

def arcs (count : Int64) (arc : Arc) : List Arc := if count = 0 then [] else [arc]

def inputArcs (flow : Flow) (name : String) : List Arc :=
  arcs flow.cap ⟨name,.inhibit,flow.cap⟩ ++ arcs flow.read ⟨name,.test,flow.read⟩ ++
    arcs flow.consumed ⟨name,.consume,flow.consumed⟩

def outputArcs (flow : Flow) (name : String) : List Arc := arcs flow.produced ⟨name,.produce,flow.produced⟩

theorem arcs_text (count : Int64) (arc : Arc) : (arcs count arc).map Arc.text = decorated count arc.text := by
  unfold arcs decorated
  split <;> rfl

theorem inputs_text (flow : Flow) (name : String) : (flow.inputArcs name).map Arc.text = flow.inputs name := by
  unfold inputArcs inputs
  rw [List.map_append,List.map_append,arcs_text,arcs_text,arcs_text]
  rfl

theorem outputs_text (flow : Flow) (name : String) :
    (flow.outputArcs name).map Arc.text = flow.outputs name := arcs_text _ _

theorem arcs_member {count : Int64} {arc other : Arc} (member : other ∈ arcs count arc) : other = arc := by
  unfold arcs at member
  split at member
  · cases member
  · exact List.mem_singleton.mp member

theorem inputs_member {flow : Flow} {name : String} {arc : Arc} (member : arc ∈ flow.inputArcs name) :
    arc = ⟨name,.inhibit,flow.cap⟩ ∨ arc = ⟨name,.test,flow.read⟩ ∨ arc = ⟨name,.consume,flow.consumed⟩ := by
  rcases List.mem_append.mp member with before | consumed
  · rcases List.mem_append.mp before with cap | read
    · exact .inl (arcs_member cap)
    · exact .inr (.inl (arcs_member read))
  · exact .inr (.inr (arcs_member consumed))

end Net.Flow

namespace Net

variable {net : Net} {t p : Nat} {name : String}

def nameOf (net : Net) (p : Nat) : String := net.places[p]?.getD ""

def inputArcs (net : Net) (t : Nat) : List Arc :=
  (net.row t).touched.flatMap fun p => ((net.row t).flow p).inputArcs (net.nameOf p)

def outputArcs (net : Net) (t : Nat) : List Arc :=
  (net.row t).touched.flatMap fun p => ((net.row t).flow p).outputArcs (net.nameOf p)

theorem inputsOf_text (net : Net) (t : Nat) : (net.inputArcs t).map Arc.text = net.inputsOf t := by
  unfold inputArcs inputsOf
  rw [List.map_flatMap]
  exact List.flatMap_congr fun p _ => Flow.inputs_text _ _

theorem outputsOf_text (net : Net) (t : Nat) : (net.outputArcs t).map Arc.text = net.outputsOf t := by
  unfold outputArcs outputsOf
  rw [List.map_flatMap]
  exact List.flatMap_congr fun p _ => Flow.outputs_text _ _

theorem name_spelled (spelled : net.Spelled) (known : p < net.places.size) : IsName (net.nameOf p).toList :=
  spelled.places _ (default_member _ _ known)

theorem flow_nonneg (sound : net.Sound) (t p : Nat) (fits : (net.row t).produced p < wordLimit) :
    0 ≤ ((net.row t).flow p).cap.toInt ∧ 0 ≤ ((net.row t).flow p).read.toInt ∧ 0 ≤ ((net.row t).flow p).consumed.toInt ∧
      0 ≤ ((net.row t).flow p).produced.toInt := by
  have row := sound.rows t
  have flows := Row.flow_parts row p fits
  have cap := row.cap p
  have pre := row.pre p
  have guarded := row.guarded p
  have produced := row.produced p
  rw [flows.cap,flows.read,flows.consumed,flows.produced]
  omega

theorem inputArcs_spelled (sound : net.Sound) (spelled : net.Spelled)
    (fits : ∀ p, (net.row t).produced p < wordLimit) :
    ∀ arc ∈ net.inputArcs t, arc.Spelled ∧ arc.use ≠ .produce := by
  intro arc member
  obtain ⟨p,here,among⟩ := List.mem_flatMap.mp member
  have isName := name_spelled spelled (Row.touched_inside (sound.rows t) here)
  obtain ⟨cap,read,consumed,_⟩ := flow_nonneg sound t p (fits p)
  rcases Flow.inputs_member among with rfl | rfl | rfl
  · exact ⟨⟨isName,cap⟩,by simp⟩
  · exact ⟨⟨isName,read⟩,by simp⟩
  · exact ⟨⟨isName,consumed⟩,by simp⟩

theorem outputArcs_spelled (sound : net.Sound) (spelled : net.Spelled)
    (fits : ∀ p, (net.row t).produced p < wordLimit) :
    ∀ arc ∈ net.outputArcs t, arc.Spelled ∧ arc.use = .produce := by
  intro arc member
  obtain ⟨p,here,among⟩ := List.mem_flatMap.mp member
  have isName := name_spelled spelled (Row.touched_inside (sound.rows t) here)
  obtain ⟨_,_,_,produced⟩ := flow_nonneg sound t p (fits p)
  cases Flow.arcs_member among
  exact ⟨⟨isName,produced⟩,rfl⟩

def headClauses (net : Net) : List Clause := if net.name = "" then [] else [.netName net.name]

theorem name_inLine (spelled : net.Spelled) : ∀ c ∈ net.name.toList, InLine c := by
  rcases spelled.name with none | isName
  · rw [none]
    exact nofun
  · exact isName_inLine isName

def titleLine (net : Net) : List Char := " net ".toList ++ net.name.toList

def countsLine (net : Net) : List Char :=
  ' ' :: (Nat.toDigits 10 net.places.size ++ (" places, ".toList ++
    (Nat.toDigits 10 net.transitions.size ++ " transitions".toList)))

theorem titleLine_inLine (spelled : net.Spelled) : ∀ c ∈ net.titleLine, InLine c := by
  have text : ∀ c ∈ " net ".toList, InLine c := all_inLine (by decide)
  intro c member
  rcases List.mem_append.mp member with before | name
  · exact text c before
  · exact name_inLine spelled c name

theorem countsLine_inLine (net : Net) : ∀ c ∈ net.countsLine, InLine c := by
  have digit : ∀ n, ∀ c ∈ Nat.toDigits 10 n, InLine c := fun n c member =>
    char_inLine Char.isDigit (by decide) (by decide) c (Nat.isDigit_of_mem_toDigits (by decide) (by decide) member)
  have first : ∀ c ∈ " places, ".toList, InLine c := all_inLine (by decide)
  have second : ∀ c ∈ " transitions".toList, InLine c := all_inLine (by decide)
  intro c member
  simp only [countsLine,List.mem_cons,List.mem_append] at member
  rcases member with rfl | places | text | transitions | text
  · decide
  · exact digit _ c places
  · exact first c text
  · exact digit _ c transitions
  · exact second c text

theorem headTexts_declares (spelled : net.Spelled) : Declares net.headTexts net.headClauses := by
  intro rest opening
  have comments : glyphs (net.headTexts.flatMap String.toList ++ rest) =
      glyphs ((if net.name.isEmpty then "" else "net " ++ net.name ++ "\n").toList ++ rest) := by
    have whole : net.headTexts.flatMap String.toList ++ rest = '#' :: [] ++ '\n' :: ('#' :: net.titleLine ++ '\n' ::
        ('#' :: net.countsLine ++ '\n' :: ('#' :: [] ++ '\n' :: '\n' ::
          ((if net.name.isEmpty then "" else "net " ++ net.name ++ "\n").toList ++ rest)))) := by
      have same : ∀ text : String, toString text = text := fun _ => rfl
      simp [headTexts,titleLine,countsLine,same]
    rw [whole,glyphs_comment [] nofun,glyphs_comment _ (titleLine_inLine spelled),
      glyphs_comment _ (countsLine_inLine net),glyphs_comment [] nofun,glyphs_line]
  rw [comments]
  unfold headClauses
  by_cases none : net.name = ""
  · rw [if_pos (by simpa using none),if_pos none]
    exact ⟨opening,rfl⟩
  · have isName := spelled.name.resolve_left none
    have tokens : glyphs (("net " ++ net.name ++ "\n").toList ++ rest) =
        glyph .net "net".toList :: glyph .ident net.name.toList :: glyphs rest := by
      have whole : ("net " ++ net.name ++ "\n").toList ++ rest = "net".toList ++ ' ' :: (net.name.toList ++ '\n' :: rest) := by
        simp
      rw [whole,glyphs_net (delimited_word (delimited_space _)),glyphs_space,glyphs_named isName (delimited_line rest),glyphs_line]
    rw [if_neg (by simpa using none),if_neg none,tokens,reading_net,String.ofList_toList]
    exact ⟨opens_glyph _ _ _ rfl,rfl⟩

theorem placeTexts_declares (sound : net.Sound) (spelled : net.Spelled) (found : net.places[p]? = some name) :
    Declares (net.placeTexts name p) (placeClauses name (net.placeLabels[p]?.getD "") (net.initial.get p)) := by
  intro rest opening
  have isName := spelled.places name (Array.mem_of_getElem? found)
  have known : p < net.placeLabels.size := by
    rw [sound.placeLabels]
    exact (Array.getElem?_eq_some_iff.mp found).1
  have isLabel : net.placeLabels[p]?.getD "" = "" ∨ IsLabel (net.placeLabels[p]?.getD "").toList :=
    spelled.placeLabels _ (default_member _ _ known)
  have tokens : glyphs ((net.placeTexts name p).flatMap String.toList ++ rest) =
      glyph .place "pl".toList :: glyph .ident name.toList ::
        (labelTokens (net.placeLabels[p]?.getD "") ++ (markTokens (net.initial.get p) ++ glyphs rest)) := by
    have whole : (net.placeTexts name p).flatMap String.toList ++ rest = "pl".toList ++ ' ' :: (name.toList ++
        ((labelled (net.placeLabels[p]?.getD "")).toList ++ ((markedText (net.initial.get p)).toList ++ rest))) := by
      simp [placeTexts]
    rw [whole,glyphs_place (delimited_word (delimited_space _)),glyphs_space,
      glyphs_named isName (labelled_delimited _ (marked_delimited _ _)),glyphs_labelled _ isLabel (marked_delimited _ _),
      glyphs_marked _ (sound.initial p)]
  rw [tokens]
  exact ⟨opens_glyph _ _ _ rfl,reading_place _ _ _ (sound.initial p) opening⟩

theorem transitionTexts_declares (sound : net.Sound) (spelled : net.Spelled) (found : net.transitions[t]? = some name)
    (fits : ∀ p, (net.row t).produced p < wordLimit) :
    Declares (net.transitionTexts name t) (transitionClauses name (net.transitionLabels[t]?.getD "")
      (net.time[t]?.getD .unconstrained) (net.inputArcs t ++ net.outputArcs t)) := by
  intro rest opening
  have isName := spelled.transitions name (Array.mem_of_getElem? found)
  have inside := (Array.getElem?_eq_some_iff.mp found).1
  have known : t < net.transitionLabels.size := sound.tabled.transitionLabels ▸ inside
  have isLabel : net.transitionLabels[t]?.getD "" = "" ∨ IsLabel (net.transitionLabels[t]?.getD "").toList :=
    spelled.transitionLabels _ (default_member _ _ known)
  have stored : (net.time[t]?.getD .unconstrained).Stored :=
    sound.times _ (default_member _ _ (sound.tabled.time ▸ inside))
  have inputs := inputArcs_spelled sound spelled fits
  have outputs := outputArcs_spelled sound spelled fits
  have tokens : glyphs ((net.transitionTexts name t).flatMap String.toList ++ rest) =
      glyph .transition "tr".toList :: glyph .ident name.toList :: (labelTokens (net.transitionLabels[t]?.getD "") ++
        (timeTokens (net.time[t]?.getD .unconstrained) ++ ((net.inputArcs t).flatMap Arc.tokens ++ glyph .arrow ['-','>'] ::
          ((net.outputArcs t).flatMap Arc.tokens ++ glyphs rest)))) := by
    have behind : Delimited ((spaced (net.outputsOf t)).toList ++ '\n' :: rest) := spaced_delimited _ (delimited_line rest)
    have arrow : Delimited (' ' :: '-' :: '>' :: ((spaced (net.outputsOf t)).toList ++ '\n' :: rest)) := delimited_space _
    have arcs := spaced_delimited (net.inputsOf t) arrow
    have timing := timed_delimited (net.time[t]?.getD .unconstrained) arcs
    have whole : (net.transitionTexts name t).flatMap String.toList ++ rest = "tr".toList ++ ' ' :: (name.toList ++
        ((labelled (net.transitionLabels[t]?.getD "")).toList ++ ((timed (net.time[t]?.getD .unconstrained)).toList ++
          ((spaced (net.inputsOf t)).toList ++ ' ' :: '-' :: '>' :: ((spaced (net.outputsOf t)).toList ++ '\n' :: rest))))) := by
      simp [transitionTexts]
    rw [whole,glyphs_transition (delimited_word (delimited_space _)),glyphs_space,
      glyphs_named isName (labelled_delimited _ timing),glyphs_labelled _ isLabel timing,glyphs_timed _ stored,
      ← inputsOf_text,glyphs_spaced _ (fun arc member => (inputs arc member).1) arrow,glyphs_space,glyphs_arrow,
      ← outputsOf_text,glyphs_spaced _ (fun arc member => (outputs arc member).1) (delimited_line rest),glyphs_line]
  rw [tokens]
  refine ⟨opens_glyph _ _ _ rfl,reading_transition _ _ _ _ _ stored ?_ ?_ opening⟩
  · exact fun arc member => ⟨(inputs arc member).2,(inputs arc member).1.weight⟩
  · exact fun arc member => ⟨(outputs arc member).2,(outputs arc member).1.weight⟩

theorem namesOf_spelled (spelled : net.Spelled) (lower : List Nat) (inside : ∀ u ∈ lower, u < net.transitions.size) :
    ∀ name ∈ net.namesOf lower, IsName name.toList := by
  intro name member
  obtain ⟨u,inLower,rfl⟩ := List.mem_map.mp member
  exact spelled.transitions _ (default_member _ _ (inside u inLower))

def priorityRow (net : Net) (lower : List Nat) (t : Nat) : List Clause :=
  if lower.isEmpty then [] else priorityClauses (net.transitions[t]?.getD "") (net.namesOf lower)

theorem priorityTexts_declares (sound : net.Sound) (spelled : net.Spelled) (lower : List Nat)
    (found : net.prio[t]? = some lower) :
    Declares (net.priorityTexts lower t) (net.priorityRow lower t) := by
  have among := Array.mem_toList_iff.mpr (Array.mem_of_getElem? found)
  have names := namesOf_spelled spelled lower fun u member => sound.tabled.prio ▸ sound.inTable lower among u member
  have inside : t < net.transitions.size := sound.tabled.prio ▸ (Array.getElem?_eq_some_iff.mp found).1
  have isName : IsName (net.transitions[t]?.getD "").toList :=
    spelled.transitions _ (default_member _ _ inside)
  unfold priorityTexts priorityRow
  cases lower with
  | nil => exact declares_nil
  | cons u more =>
    have some : net.namesOf (u :: more) ≠ [] := by simp [namesOf]
    intro rest opening
    have tokens : glyphs (["pr " ++ net.transitions[t]?.getD "" ++ " > " ++ " ".intercalate (net.namesOf (u :: more)) ++
        "\n"].flatMap String.toList ++ rest) = glyph .priority "pr".toList :: glyph .ident (net.transitions[t]?.getD "").toList ::
          glyph .gt ['>'] :: (nameTokens (net.namesOf (u :: more)) ++ glyphs rest) := by
      have whole : ["pr " ++ net.transitions[t]?.getD "" ++ " > " ++ " ".intercalate (net.namesOf (u :: more)) ++
          "\n"].flatMap String.toList ++ rest = "pr".toList ++ ' ' :: ((net.transitions[t]?.getD "").toList ++
            ' ' :: '>' :: ' ' :: ((" ".intercalate (net.namesOf (u :: more))).toList ++ '\n' :: rest)) := by
        simp
      rw [whole,glyphs_priority (delimited_word (delimited_space _)),glyphs_space,glyphs_named isName (delimited_space _),
        glyphs_space,glyphs_above,glyphs_space,glyphs_intercalated _ names some (delimited_line rest),glyphs_line]
    rw [if_neg (by simp),if_neg (by simp),tokens]
    exact ⟨opens_glyph _ _ _ rfl,reading_priority _ _ some opening⟩

def placeRow (net : Net) (name : String) (p : Nat) : List Clause :=
  placeClauses name (net.placeLabels[p]?.getD "") (net.initial.get p)

def transitionRow (net : Net) (name : String) (t : Nat) : List Clause :=
  transitionClauses name (net.transitionLabels[t]?.getD "") (net.time[t]?.getD .unconstrained)
    (net.inputArcs t ++ net.outputArcs t)

def clauses (net : Net) : List Clause :=
  net.headClauses ++ eachRow net.places net.placeRow ++ eachRow net.transitions net.transitionRow ++
    eachRow net.prio net.priorityRow

theorem eachRow_declares (rows : Array α) (texts : α → Nat → List String) (clauses : α → Nat → List Clause)
    (each : ∀ index row, rows[index]? = some row → Declares (texts row index) (clauses row index)) :
    Declares (eachRow rows texts) (eachRow rows clauses) := by
  refine declares_flatMap _ _ _ fun entry member => ?_
  have found := List.mem_zipIdx_iff_getElem?.mp member
  rw [Array.getElem?_toList] at found
  exact each entry.2 entry.1 found

theorem render_reading (sound : net.Sound) (spelled : net.Spelled)
    (fits : ∀ t p, (net.row t).produced p < wordLimit) :
    readingFrom .top (glyphs net.render.text.toList) = ⟨net.clauses,none⟩ := by
  rw [render_exact sound fits]
  refine declares_all ?_
  refine declares_append (declares_append (declares_append (headTexts_declares spelled) ?_) ?_) ?_
  · exact eachRow_declares _ _ _ fun p name found => placeTexts_declares sound spelled found
  · exact eachRow_declares _ _ _ fun t name found => transitionTexts_declares sound spelled found (fits t)
  · exact eachRow_declares _ _ _ fun t lower found => priorityTexts_declares sound spelled lower found

end Net

end TimePetri
