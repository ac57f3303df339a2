import TimePetri.Pnml.Tree
import TimePetri.Proofs.Script.Unambiguous

namespace TimePetri.Pnml

open Script Document

structure IsTag (tag : String) : Prop where
  some : tag ≠ ""
  letters : ∀ c ∈ tag.toList, c.isAlpha = true

inductive Element.Plain : Element → Prop where
  | text {tag content : String} (isTag : IsTag tag) (line : '\n' ∉ content.toList) : Plain (.text tag content)
  | node {tag : String} (isTag : IsTag tag) (names : ∀ pair ∈ attributes, IsTag pair.name)
    (within : ∀ child ∈ children, child.Plain) : Plain (.node tag attributes children)

-- What stands before the tags of an element that has a line of its own.
def margin (depth : Nat) : List Char := '\n' :: List.replicate (2 * depth) ' '

variable {tag other content : String} {first second : String} {attributes others : List Attribute} {rest more : List Char}
  {depth inner : Nat}

theorem escapeChar_unique {c d : Char} (same : (escapeChar c).toList ++ rest = (escapeChar d).toList ++ more) :
    c = d ∧ rest = more := by
  unfold escapeChar at same
  split at same <;> split at same <;> simp at same <;> grind

theorem escapeChar_safe {c d : Char} (member : d ∈ (escapeChar c).toList) :
    d ≠ '<' ∧ d ≠ '"' ∧ (d = '\n' → c = '\n') := by
  unfold escapeChar at member
  split at member <;> simp at member <;> grind

theorem escapeChar_some (c : Char) : (escapeChar c).toList ≠ [] := by
  unfold escapeChar
  split <;> simp

theorem escape_chars (text : String) : (escape text).toList = text.toList.flatMap fun c => (escapeChar c).toList := by
  rw [escape,String.toList_join,List.flatMap_map]

theorem escape_safe {c : Char} (member : c ∈ (escape content).toList) :
    c ≠ '<' ∧ c ≠ '"' ∧ (c = '\n' → '\n' ∈ content.toList) := by
  rw [escape_chars] at member
  obtain ⟨d,inside,here⟩ := List.mem_flatMap.mp member
  obtain ⟨opening,quote,line⟩ := escapeChar_safe here
  exact ⟨opening,quote,fun isLine => line isLine ▸ inside⟩

theorem escaped_unique (cs ds : List Char)
    (same : (cs.flatMap fun c => (escapeChar c).toList) = ds.flatMap fun d => (escapeChar d).toList) : cs = ds := by
  induction cs generalizing ds with
  | nil =>
    cases ds with
    | nil => rfl
    | cons d ds => exact absurd (List.append_eq_nil_iff.mp (List.flatMap_cons ▸ same.symm)).1 (escapeChar_some d)
  | cons c cs ih =>
    cases ds with
    | nil => exact absurd (List.append_eq_nil_iff.mp (List.flatMap_cons ▸ same)).1 (escapeChar_some c)
    | cons d ds =>
      rw [List.flatMap_cons,List.flatMap_cons] at same
      obtain ⟨rfl,later⟩ := escapeChar_unique same
      rw [ih ds later]

theorem escape_unique (same : (escape first).toList = (escape second).toList) : first = second := by
  rw [escape_chars,escape_chars] at same
  exact String.toList_inj.mp (escaped_unique _ _ same)

theorem escape_ends {mark : Char} (ends : mark = '<' ∨ mark = '"')
    (same : (escape first).toList ++ mark :: rest = (escape second).toList ++ mark :: more) :
    first = second ∧ rest = more := by
  have inside : ∀ text, ∀ c ∈ (escape text).toList, (c != mark) = true := by
    intro text c member
    obtain ⟨opening,quote,_⟩ := escape_safe member
    rcases ends with rfl | rfl
    · exact bne_iff_ne.mpr opening
    · exact bne_iff_ne.mpr quote
  have stops : ∀ tail, ∀ c ∈ (mark :: tail).head?, (c != mark) = false := by
    intro tail c here
    cases here
    simp
  obtain ⟨texts,tails⟩ := split_unique (· != mark) same (inside _) (inside _) (stops _) (stops _)
  exact ⟨escape_unique texts,(List.cons.inj tails).2⟩

theorem tag_ends {mark sign : Char} (isTag : IsTag tag) (otherTag : IsTag other) (markEnds : mark.isAlpha = false)
    (signEnds : sign.isAlpha = false) (same : tag.toList ++ mark :: rest = other.toList ++ sign :: more) :
    tag = other ∧ mark = sign ∧ rest = more := by
  obtain ⟨tags,tails⟩ := split_unique Char.isAlpha same isTag.letters otherTag.letters
    (fun c here => by cases here; exact markEnds) fun c here => by cases here; exact signEnds
  exact ⟨String.toList_inj.mp tags,List.cons_eq_cons.mp tails⟩

theorem attribute_chars (pair : Attribute) :
    pair.written.toList = ' ' :: (pair.name.toList ++ '=' :: '"' :: ((escape pair.value).toList ++ ['"'])) := by
  simp [Attribute.written]

theorem attribute_ends {pair another : Attribute} (isTag : IsTag pair.name) (otherTag : IsTag another.name)
    (same : pair.written.toList ++ rest = another.written.toList ++ more) : pair = another ∧ rest = more := by
  rw [attribute_chars,attribute_chars] at same
  simp only [List.cons_append,List.append_assoc,List.nil_append] at same
  obtain ⟨names,_,values⟩ := tag_ends isTag otherTag (by decide) (by decide) ((List.cons.inj same).2)
  obtain ⟨values,tails⟩ := escape_ends (.inr rfl) ((List.cons.inj values).2)
  cases pair
  cases another
  exact ⟨by rw [Attribute.mk.injEq]; exact ⟨names,values⟩,tails⟩

theorem attributes_end (names : ∀ pair ∈ attributes, IsTag pair.name) (otherNames : ∀ pair ∈ others, IsTag pair.name)
    (same : (attributes.flatMap (·.written.toList)) ++ '>' :: rest = (others.flatMap (·.written.toList)) ++ '>' :: more) :
    attributes = others ∧ rest = more := by
  induction attributes generalizing others with
  | nil =>
    cases others with
    | nil => exact ⟨rfl,(List.cons.inj same).2⟩
    | cons pair others => rw [List.flatMap_cons,attribute_chars] at same; simp at same
  | cons pair attributes ih =>
    cases others with
    | nil => rw [List.flatMap_cons,attribute_chars] at same; simp at same
    | cons another others =>
      rw [List.flatMap_cons,List.flatMap_cons,List.append_assoc,List.append_assoc] at same
      obtain ⟨rfl,later⟩ := attribute_ends (names _ (by simp)) (otherNames _ (by simp)) same
      obtain ⟨rfl,tails⟩ := ih (fun p member => names p (List.mem_cons_of_mem _ member))
        (fun p member => otherNames p (List.mem_cons_of_mem _ member)) later
      exact ⟨rfl,tails⟩

theorem openTag_chars (tag : String) (attributes : List Attribute) :
    (openTag tag attributes).toList = '<' :: (tag.toList ++ (attributes.flatMap (·.written.toList) ++ ['>'])) := by
  simp [openTag,String.toList_join,List.flatMap_map]

theorem closeTag_chars (tag : String) : (closeTag tag).toList = '<' :: '/' :: (tag.toList ++ ['>']) := by
  simp [closeTag]

theorem tag_followed (attributes : List Attribute) (rest : List Char) :
    ∃ mark more, attributes.flatMap (·.written.toList) ++ '>' :: rest = mark :: more ∧ mark.isAlpha = false := by
  cases attributes with
  | nil => exact ⟨_,_,rfl,by decide⟩
  | cons pair attributes =>
    rw [List.flatMap_cons,attribute_chars]
    exact ⟨' ',_,rfl,by decide⟩

theorem openTag_ends (isTag : IsTag tag) (otherTag : IsTag other) (names : ∀ pair ∈ attributes, IsTag pair.name)
    (otherNames : ∀ pair ∈ others, IsTag pair.name)
    (same : (openTag tag attributes).toList ++ rest = (openTag other others).toList ++ more) :
    tag = other ∧ attributes = others ∧ rest = more := by
  rw [openTag_chars,openTag_chars] at same
  simp only [List.cons_append,List.append_assoc,List.nil_append,List.cons.injEq,true_and] at same
  obtain ⟨mark,tail,followed,markEnds⟩ := tag_followed attributes rest
  obtain ⟨sign,others,otherFollowed,signEnds⟩ := tag_followed others more
  rw [followed,otherFollowed] at same
  obtain ⟨tags,rfl,rfl⟩ := tag_ends isTag otherTag markEnds signEnds same
  exact ⟨tags,attributes_end names otherNames (followed.trans otherFollowed.symm)⟩

theorem continued_chars (lines : List String) : (continued lines).toList = lines.flatMap fun line => '\n' :: line.toList := by
  rw [continued,String.toList_join,List.flatMap_map]
  simp

theorem indented_chars (depth : Nat) (line : String) : '\n' :: (indented depth line).toList = margin depth ++ line.toList := by
  rw [indented,String.toList_append,String.toList_ofList]
  rfl

theorem written_text (depth : Nat) (tag content : String) :
    (Element.text tag content).written depth =
      margin depth ++ ((openTag tag []).toList ++ ((escape content).toList ++ (closeTag tag).toList)) := by
  simp only [Element.written,Element.lines,continued_chars,List.flatMap_cons,List.flatMap_nil,List.append_nil,
    indented_chars,String.toList_append,List.append_assoc]

theorem written_node (depth : Nat) (tag : String) (attributes : List Attribute) (children : List Element) :
    (Element.node tag attributes children).written depth =
      margin depth ++ ((openTag tag attributes).toList ++
        (allWritten (depth + 1) children ++ (margin depth ++ (closeTag tag).toList))) := by
  simp only [Element.written,allWritten,Element.lines,continued_chars,List.flatMap_cons,List.flatMap_append,
    List.flatMap_nil,List.append_nil,indented_chars,List.append_assoc,List.cons_append]

theorem allWritten_nil (depth : Nat) : allWritten depth [] = [] := rfl

theorem allWritten_cons (depth : Nat) (element : Element) (elements : List Element) :
    allWritten depth (element :: elements) = element.written depth ++ allWritten depth elements := by
  simp only [Element.written,allWritten,linesOfAll,continued_chars,List.flatMap_append]

theorem written_front (depth : Nat) (element : Element) : ∃ more, element.written depth = margin depth ++ '<' :: more := by
  cases element with
  | text tag content => exact ⟨_,by rw [written_text,openTag_chars]; rfl⟩
  | node tag attributes children => exact ⟨_,by rw [written_node,openTag_chars]; rfl⟩

theorem margin_ends (same : margin depth ++ '<' :: rest = margin inner ++ '<' :: more) : depth = inner ∧ rest = more := by
  have blanks : ∀ count, ∀ c ∈ List.replicate count ' ', (c == ' ') = true := by
    intro count c member
    rw [List.eq_of_mem_replicate member]
    rfl
  have stops : ∀ tail, ∀ c ∈ ('<' :: tail).head?, (c == ' ') = false := by
    intro tail c here
    cases here
    decide
  have followed : List.replicate (2 * depth) ' ' ++ '<' :: rest = List.replicate (2 * inner) ' ' ++ '<' :: more :=
    (List.cons.inj same).2
  obtain ⟨margins,tails⟩ := split_unique (· == ' ') followed (blanks _) (blanks _) (stops _) (stops _)
  have lengths := congrArg List.length margins
  rw [List.length_replicate,List.length_replicate] at lengths
  exact ⟨by omega,(List.cons.inj tails).2⟩

theorem text_inLine (line : '\n' ∉ content.toList) :
    (escape content).toList ++ (closeTag tag).toList ++ rest ≠ '\n' :: more := by
  intro same
  rw [closeTag_chars] at same
  cases chars : (escape content).toList with
  | nil => rw [chars] at same; simp at same
  | cons c cs =>
    rw [chars] at same
    have isLine : c = '\n' := (List.cons_eq_cons.mp same).1
    exact line ((escape_safe (chars ▸ List.mem_cons_self)).2.2 isLine)

theorem within_line (depth : Nat) (children : List Element) (rest : List Char) :
    ∃ more, allWritten depth children ++ (margin inner ++ rest) = '\n' :: more := by
  cases children with
  | nil => exact ⟨_,rfl⟩
  | cons child children =>
    obtain ⟨more,front⟩ := written_front depth child
    rw [allWritten_cons,front]
    exact ⟨_,rfl⟩

mutual

theorem Element.unique (depth : Nat) (element another : Element) (plain : element.Plain) (otherPlain : another.Plain)
    (rest more : List Char) (same : element.written depth ++ rest = another.written depth ++ more) :
    element = another ∧ rest = more := by
  match element, another, plain, otherPlain with
  | .text tag content, .text other body, .text isTag _, .text otherTag _ =>
    rw [written_text,written_text] at same
    simp only [List.append_assoc,List.append_cancel_left_eq] at same
    obtain ⟨rfl,_,inside⟩ := openTag_ends isTag otherTag (List.forall_mem_nil _) (List.forall_mem_nil _) same
    rw [closeTag_chars] at inside
    obtain ⟨rfl,tails⟩ := escape_ends (.inl rfl) inside
    exact ⟨rfl,List.append_cancel_left tails⟩
  | .text tag content, .node other attributes children, .text isTag line, .node otherTag names _ =>
    rw [written_text,written_node] at same
    simp only [List.append_assoc,List.append_cancel_left_eq] at same
    obtain ⟨_,_,same⟩ := openTag_ends isTag otherTag (List.forall_mem_nil _) names same
    -- Behind its tag a text goes on within the line, a node on the next one.
    obtain ⟨tail,front⟩ := within_line (depth + 1) children ((closeTag other).toList ++ more)
    rw [front,← List.append_assoc] at same
    exact absurd same (text_inLine line)
  | .node tag attributes children, .text other content, .node isTag names _, .text otherTag line =>
    rw [written_text,written_node] at same
    simp only [List.append_assoc,List.append_cancel_left_eq] at same
    obtain ⟨_,_,same⟩ := openTag_ends isTag otherTag names (List.forall_mem_nil _) same
    obtain ⟨tail,front⟩ := within_line (depth + 1) children ((closeTag tag).toList ++ rest)
    rw [front,← List.append_assoc] at same
    exact absurd same.symm (text_inLine line)
  | .node tag attributes children, .node other others siblings, .node isTag names within, .node otherTag otherNames inside =>
    rw [written_node,written_node] at same
    simp only [List.append_assoc,List.append_cancel_left_eq] at same
    obtain ⟨rfl,rfl,contents⟩ := openTag_ends isTag otherTag names otherNames same
    obtain ⟨rfl,tails⟩ := all_unique depth tag children siblings within inside rest more contents
    exact ⟨rfl,tails⟩

-- The elements of a node go on up to its closing tag, which stands less deep.
theorem all_unique (depth : Nat) (tag : String) (elements others : List Element) (plain : ∀ child ∈ elements, child.Plain)
    (otherPlain : ∀ child ∈ others, child.Plain) (rest more : List Char)
    (same : allWritten (depth + 1) elements ++ (margin depth ++ ((closeTag tag).toList ++ rest)) =
      allWritten (depth + 1) others ++ (margin depth ++ ((closeTag tag).toList ++ more))) :
    elements = others ∧ rest = more := by
  match elements, others with
  | [], [] =>
    simp only [List.append_cancel_left_eq] at same
    exact ⟨rfl,same⟩
  | [], child :: others =>
    obtain ⟨tail,front⟩ := written_front (depth + 1) child
    rw [allWritten_nil,List.nil_append,allWritten_cons,front,closeTag_chars,List.append_assoc,List.append_assoc] at same
    have deeper := (margin_ends same).1
    omega
  | child :: elements, [] =>
    obtain ⟨tail,front⟩ := written_front (depth + 1) child
    rw [allWritten_nil,List.nil_append,allWritten_cons,front,closeTag_chars,List.append_assoc,List.append_assoc] at same
    have deeper := (margin_ends same).1
    omega
  | child :: elements, another :: others =>
    rw [allWritten_cons,allWritten_cons,List.append_assoc,List.append_assoc] at same
    obtain ⟨rfl,later⟩ := Element.unique (depth + 1) child another (plain _ (by simp)) (otherPlain _ (by simp)) _ _ same
    obtain ⟨rfl,tails⟩ := all_unique depth tag elements others (fun c member => plain c (List.mem_cons_of_mem _ member))
      (fun c member => otherPlain c (List.mem_cons_of_mem _ member)) rest more later
    exact ⟨rfl,tails⟩

end

end TimePetri.Pnml
