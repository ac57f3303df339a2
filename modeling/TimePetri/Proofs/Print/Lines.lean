import TimePetri.Proofs.Print.Texts
import TimePetri.Proofs.Script.Lines

namespace TimePetri

open Script

variable {name label : String} {rest : List Char} {w : Int64}

namespace Script

theorem delimited_space (more : List Char) : Delimited (' ' :: more) := ⟨_,_,rfl,by decide⟩

theorem delimited_line (more : List Char) : Delimited ('\n' :: more) := ⟨_,_,rfl,by decide⟩

theorem glyphs_space (rest : List Char) : glyphs (' ' :: rest) = glyphs rest := glyphs_blank (by decide) rest

theorem glyphs_line (rest : List Char) : glyphs ('\n' :: rest) = glyphs rest := glyphs_blank (by decide) rest

theorem glyphs_named (isName : IsName name.toList) (delimited : Delimited rest) :
    glyphs (name.toList ++ rest) = glyph .ident name.toList :: glyphs rest :=
  glyphs_name isName fun _ => delimited_word delimited

end Script

namespace Net

theorem labelled_delimited (label : String) (delimited : Delimited rest) :
    Delimited ((labelled label).toList ++ rest) := by
  unfold labelled
  split
  · exact delimited
  · rw [String.toList_append]
    exact delimited_space _

theorem glyphs_labelled (label : String) (spelled : label = "" ∨ IsLabel label.toList) (delimited : Delimited rest) :
    glyphs ((labelled label).toList ++ rest) = labelTokens label ++ glyphs rest := by
  unfold labelled labelTokens
  by_cases none : label = ""
  · subst none
    rfl
  · have isLabel := spelled.resolve_left none
    rw [if_neg (by simpa using none),if_neg none,String.toList_append,List.append_assoc]
    change glyphs (' ' :: ':' :: ' ' :: (label.toList ++ rest)) = _
    rw [glyphs_space]
    have dark : ∀ c ∈ [' '], isBlank c = true := List.forall_mem_singleton.mpr rfl
    exact glyphs_label dark isLabel fun _ => delimited

theorem marked_delimited (count : Int64) (rest : List Char) : Delimited ((markedText count).toList ++ rest) := by
  unfold markedText
  split
  · exact delimited_line rest
  · rw [String.toList_append,String.toList_append]
    exact delimited_space _

theorem glyphs_marked (count : Int64) (nonneg : 0 ≤ count.toInt) (rest : List Char) :
    glyphs ((markedText count).toList ++ rest) = markTokens count ++ glyphs rest := by
  unfold markedText markTokens
  split
  · exact glyphs_line rest
  · rw [decimal_digits nonneg,String.toList_append,String.toList_append,List.append_assoc,List.append_assoc,
      String.toList_ofList,String.toList_ofList]
    change glyphs (' ' :: '(' :: (digits count ++ ')' :: '\n' :: rest)) = _
    rw [glyphs_space]
    refine (glyphs_marking count ('\n' :: rest)).trans ?_
    rw [glyphs_line]
    rfl

theorem timed_delimited (interval : Interval) (delimited : Delimited rest) :
    Delimited ((timed interval).toList ++ rest) := by
  unfold timed
  split
  · exact delimited
  · rw [String.toList_append]
    exact delimited_space _

theorem glyphs_timed (interval : Interval) (stored : interval.Stored) (rest : List Char) :
    glyphs ((timed interval).toList ++ rest) = timeTokens interval ++ glyphs rest := by
  unfold timed timeTokens
  cases excludes : interval.isTrivial with
  | true => rfl
  | false =>
    have declared := Interval.stored_declared stored excludes
    rw [if_neg (by simp),if_neg (by simp),String.toList_append,Interval.text_written declared,List.append_assoc]
    change glyphs (' ' :: (interval.written ++ rest)) = _
    rw [glyphs_space]
    exact Interval.glyphs_written interval rest

end Net

namespace Script.Arc

variable {arc : Arc}

def text (arc : Arc) : String :=
  match arc.use with
  | .inhibit => arc.name ++ "?-" ++ decimal arc.weight
  | .test => arc.name ++ "?" ++ decimal arc.weight
  | _ => Net.countedText arc.name arc.weight

structure Spelled (arc : Arc) : Prop where
  name : IsName arc.name.toList
  weight : 0 ≤ arc.weight.toInt

-- The decoration ends the name, and the digits behind it end the arc.
theorem glyphs_decorated (mark : String) (spelled : arc.Spelled) (decorated : arc.bare = false)
    (ends : ∀ more, Stops isIdentChar (mark.toList ++ more))
    (weight : glyphs (mark.toList ++ (digits arc.weight ++ rest)) = arc.weightToken :: glyphs rest) :
    glyphs ((arc.name ++ mark ++ decimal arc.weight).toList ++ rest) = arc.tokens ++ glyphs rest := by
  rw [decimal_digits spelled.weight,String.toList_append,String.toList_append,List.append_assoc,List.append_assoc,
    String.toList_ofList,glyphs_name spelled.name fun _ => ends _,weight]
  unfold tokens
  rw [decorated]
  rfl

theorem question_ends (more : List Char) : Stops isIdentChar ('?' :: more) := fun c here => by cases here; decide

theorem star_ends (more : List Char) : Stops isIdentChar ('*' :: more) := fun c here => by cases here; decide

theorem glyphs_counted (spelled : arc.Spelled) (delimited : Delimited rest)
    (ordinary : arc.use = .consume ∨ arc.use = .produce) :
    glyphs ((Net.countedText arc.name arc.weight).toList ++ rest) = arc.tokens ++ glyphs rest := by
  have bare : arc.bare = decide (arc.weight = 1) := by
    rcases ordinary with use | use <;> simp [Arc.bare,use]
  have decoration : arc.decoration = .star := by
    rcases ordinary with use | use <;> simp [Arc.decoration,use]
  unfold Net.countedText
  by_cases one : arc.weight = 1
  · unfold tokens
    rw [if_pos one,if_pos (by simp [bare,one]),glyphs_named spelled.name delimited]
    rfl
  · rw [if_neg one]
    refine glyphs_decorated "*" spelled (by simp [bare,one]) star_ends ?_
    rw [weightToken,decoration]
    exact glyphs_star arc.weight delimited

theorem glyphs_text (spelled : arc.Spelled) (delimited : Delimited rest) :
    glyphs (arc.text.toList ++ rest) = arc.tokens ++ glyphs rest := by
  unfold text
  cases use : arc.use with
  | consume => exact glyphs_counted spelled delimited (.inl use)
  | produce => exact glyphs_counted spelled delimited (.inr use)
  | test =>
    refine glyphs_decorated "?" spelled (by simp [Arc.bare,use]) question_ends ?_
    rw [weightToken,show arc.decoration = .read by simp [decoration,use]]
    exact glyphs_read arc.weight delimited
  | inhibit =>
    refine glyphs_decorated "?-" spelled (by simp [Arc.bare,use]) (fun more => question_ends _) ?_
    rw [weightToken,show arc.decoration = .inhibitor by simp [decoration,use]]
    exact glyphs_inhibitor arc.weight delimited

end Script.Arc

namespace Net

theorem spaced_cons (word : String) (words : List String) : spaced (word :: words) = " " ++ word ++ spaced words := by
  simp [spaced]

theorem spaced_delimited (words : List String) (delimited : Delimited rest) :
    Delimited ((spaced words).toList ++ rest) := by
  cases words with
  | nil => exact delimited
  | cons word words =>
    rw [spaced_cons,String.toList_append,String.toList_append]
    exact delimited_space _

theorem glyphs_spaced (arcs : List Arc) (spelled : ∀ arc ∈ arcs, arc.Spelled) (delimited : Delimited rest) :
    glyphs ((spaced (arcs.map Arc.text)).toList ++ rest) = arcs.flatMap Arc.tokens ++ glyphs rest := by
  induction arcs with
  | nil => rfl
  | cons arc arcs ih =>
    have later := ih fun other member => spelled other (List.mem_cons_of_mem _ member)
    rw [List.map_cons,spaced_cons,String.toList_append,String.toList_append,List.append_assoc,List.append_assoc]
    change glyphs (' ' :: (arc.text.toList ++ _)) = _
    rw [glyphs_space,Arc.glyphs_text (spelled arc (by simp)) (spaced_delimited _ delimited),later,List.flatMap_cons,
      List.append_assoc]

theorem glyphs_intercalated (names : List String) (spelled : ∀ name ∈ names, IsName name.toList) (some : names ≠ [])
    (delimited : Delimited rest) :
    glyphs ((" ".intercalate names).toList ++ rest) = nameTokens names ++ glyphs rest := by
  induction names with
  | nil => exact absurd rfl some
  | cons name names ih =>
    have isName := spelled name (by simp)
    cases names with
    | nil =>
      rw [String.intercalate_singleton]
      exact glyphs_named isName delimited
    | cons other more =>
      have later := ih (fun next member => spelled next (List.mem_cons_of_mem _ member)) (by simp)
      rw [String.intercalate_cons_cons,String.toList_append,String.toList_append,List.append_assoc,List.append_assoc]
      change glyphs (name.toList ++ ' ' :: ((" ".intercalate (other :: more)).toList ++ rest)) = _
      rw [glyphs_named isName (delimited_space _),glyphs_space,later]
      rfl

end Net

end TimePetri
