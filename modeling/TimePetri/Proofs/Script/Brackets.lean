import TimePetri.Proofs.Script.Numbers
import TimePetri.Proofs.Script.Stream

namespace TimePetri.Script

-- Either bracket opens an interval, and either closes it.
def IsBracket (c : Char) : Prop := c = '[' ∨ c = ']'

instance (c : Char) : Decidable (IsBracket c) := inferInstanceAs (Decidable (_ ∨ _))

def inside (c : Char) : Bool := c.isDigit || c = 'w' || c = ',' || isBlank c

-- What is left of the text between the brackets when its blanks are taken out: each of
-- its pieces between commas is a part, unless there is nothing in it.
def squeeze (cs : List Char) : List Char := cs.filter (!isBlank ·)

def parts (body : List Char) : List (List Char) := ((body.splitOn ',').map squeeze).filter (· ≠ [])

def shownBody (body : List Char) : List Char := (squeeze body).map fun c => if c = ',' then ' ' else c

def bracketed (opening closing : Char) (body : List Char) : List Char :=
  [opening,' '] ++ shownBody body ++ [' ',closing]

def bracketToken (opening closing : Char) (body : List Char) (here : Position) : Token :=
  ⟨.interval,String.ofList (bracketed opening closing body),here⟩

structure Decimal (run : List Char) (v : Int64) : Prop where
  some : run ≠ []
  only : ∀ c ∈ run, c.isDigit = true
  value : v.toInt = Nat.ofDigitChars 10 run 0

structure Bounds (opening closing : Char) (low high : List Char) (left right : Bound) : Prop where
  left : ∃ v, Decimal low v ∧ left = if opening = '[' then .closed v else .opened v
  right : high = ['w'] ∧ right = .infinite ∨ ∃ v, Decimal high v ∧ right = if closing = ']' then .closed v else .opened v

def Padded (piece word : List Char) : Prop :=
  ∃ before after, (∀ c ∈ before ++ after, isBlank c = true) ∧ piece = before ++ word ++ after

def Solid (piece : List Char) : Prop := ∃ word, (∀ c ∈ word, isBlank c = false) ∧ Padded piece word

-- Two words between brackets as the grammar has them.
def Literal (body low high : List Char) : Prop :=
  ∃ left right, body = left ++ ',' :: right ∧ Padded left low ∧ Padded right high

variable {opening closing : Char} {body after low high : List Char} {left right : Bound} {here : Position}

theorem lexMark_bracket (opens : IsBracket opening) (cs : List Char) :
    lexMark (opening :: cs) = (lexInterval cs).grow [opening,' '] [opening] := by
  rcases opens with rfl | rfl <;> rfl

theorem bracket_inside (c : Char) (bracket : IsBracket c) : inside c = false := by
  rcases bracket with rfl | rfl <;> decide

theorem part_visible (c : Char) (part : (c.isDigit || c = 'w') = true) : isBlank c = false :=
  (Bool.or_eq_false_iff.mp (visible_cons (fun c => c.isDigit || c = 'w') (by decide) c part [] c rfl)).1

theorem lexInterval_inside (closes : IsBracket closing) (all : ∀ c ∈ body, inside c = true) (after : List Char) :
    lexInterval (body ++ closing :: after) =
      accept .interval (shownBody body ++ [' ',closing]) (body ++ [closing]) after := by
  induction body with
  | nil => rcases closes with rfl | rfl <;> rfl
  | cons c cs ih =>
    have here : inside c = true := all c (by simp)
    have plain : ¬ (c = '[' || c = ']') = true := by
      intro bracket
      have outside := bracket_inside c (by simpa [IsBracket] using bracket)
      rw [here] at outside
      cases outside
    have later := ih fun d member => all d (List.mem_cons_of_mem _ member)
    rw [List.cons_append,lexInterval,if_neg plain,later]
    by_cases comma : c = ','
    · subst comma; rfl
    · rw [if_neg comma]
      by_cases part : (c.isDigit || c = 'w') = true
      · simp [part,shownBody,squeeze,part_visible c part,comma,Lexeme.grow,accept]
      · have dark : isBlank c = true := by simpa [inside,part,comma] using here
        simp [part,shownBody,squeeze,dark,Lexeme.grow,accept]

theorem lexInterval_outside (unbracketed : ∀ c ∈ body, ¬ IsBracket c) (outside : ∃ c ∈ body, inside c = false)
    (after : List Char) : (lexInterval (body ++ after)).kind = .illegal := by
  induction body with
  | nil => obtain ⟨c,member,_⟩ := outside; cases member
  | cons c cs ih =>
    have plain : ¬ (c = '[' || c = ']') = true := by simpa [IsBracket] using unbracketed c (by simp)
    rw [List.cons_append,lexInterval,if_neg plain]
    by_cases here : inside c = true
    · have later := ih (fun d member => unbracketed d (List.mem_cons_of_mem _ member)) (by
        obtain ⟨d,member,other⟩ := outside
        rcases List.mem_cons.mp member with rfl | behind
        · rw [here] at other; cases other
        · exact ⟨d,behind,other⟩)
      by_cases comma : c = ','
      · rw [if_pos comma]; exact later
      · rw [if_neg comma]
        by_cases part : (c.isDigit || c = 'w') = true
        · rw [if_pos part]; exact later
        · have dark : isBlank c = true := by simpa [inside,part,comma] using here
          rw [if_neg part,if_pos dark]; exact later
    · simp only [inside,Bool.or_eq_true,decide_eq_true_eq,not_or] at here
      simp [here,reject]

theorem bracket_visible (opens : IsBracket opening) (cs : List Char) :
    Stops (fun c => isBlank c || c = '#') (opening :: cs) := by
  rcases opens with rfl | rfl <;> rintro c ⟨⟩ <;> decide

theorem tokens_inside (opens : IsBracket opening) (closes : IsBracket closing) (all : ∀ c ∈ body, inside c = true)
    (here : Position) (after : List Char) :
    tokensFrom here (opening :: (body ++ closing :: after)) =
      bracketToken opening closing body here :: tokensFrom (here.after (opening :: (body ++ [closing]))) after := by
  have lexed : lexMark (opening :: (body ++ closing :: after)) =
      accept .interval (bracketed opening closing body) (opening :: (body ++ [closing])) after := by
    rw [lexMark_bracket opens,lexInterval_inside closes all]
    simp [Lexeme.grow,accept,bracketed]
  exact tokensFrom_accept (bracket_visible opens _) lexed (by simp [Kind.Last]) here

theorem tokens_outside (opens : IsBracket opening) (unbracketed : ∀ c ∈ body, ¬ IsBracket c)
    (outside : ∃ c ∈ body, inside c = false) (here : Position) (after : List Char) :
    ∃ text, tokensFrom here (opening :: (body ++ after)) = [⟨.illegal,text,here⟩] := by
  refine ⟨_,tokensFrom_illegal (bracket_visible opens _) ?_ ?_ here⟩ <;> rw [lexMark_bracket opens]
  · exact lexInterval_outside unbracketed outside after
  · exact (lexInterval_reads _).1

theorem splitOn_shownBody (body : List Char) : (shownBody body).splitOn ' ' = (body.splitOn ',').map squeeze := by
  induction body with
  | nil => rfl
  | cons c cs ih =>
    obtain ⟨piece,pieces,cut⟩ := List.exists_cons_of_ne_nil (List.splitOn_ne_nil ',' cs)
    rw [cut,List.map_cons] at ih
    rw [List.splitOn_cons_eq_if_modifyHead (a := ',')]
    by_cases comma : c = ','
    · subst comma
      simpa [shownBody,squeeze,isBlank,List.splitOn_cons_eq_if_modifyHead,cut] using ih
    · by_cases dark : isBlank c = true
      · simpa [shownBody,squeeze,dark,comma,cut] using ih
      · have space : c ≠ ' ' := by rintro rfl; exact dark rfl
        have further : ((cs.filter (!isBlank ·)).map fun c => if c = ',' then ' ' else c).splitOn ' ' =
            squeeze piece :: pieces.map squeeze := ih
        simp [shownBody,squeeze,dark,comma,space,List.splitOn_cons_eq_if_modifyHead,cut,further]

theorem fields_bracketed (opens : IsBracket opening) (closes : IsBracket closing) (body : List Char) :
    fields (String.ofList (bracketed opening closing body)) = [opening] :: (parts body ++ [[closing]]) := by
  have first : ' ' ∉ [opening] := by rcases opens with rfl | rfl <;> decide
  have last : ' ' ∉ [closing] := by rcases closes with rfl | rfl <;> decide
  have whole : bracketed opening closing body = [opening] ++ ' ' :: (shownBody body ++ ' ' :: [closing]) := by
    simp [bracketed]
  unfold fields
  rw [String.toList_ofList,whole,List.splitOn_append_cons_self_of_not_mem first,List.splitOn_append_cons_self,
    splitOn_shownBody,List.splitOn_eq_singleton last]
  simp [parts]

theorem valueField_exact (run : List Char) (v : Int64) : valueField? run = some v ↔ Decimal run v := by
  unfold valueField? naturalOf?
  rw [Option.bind_eq_some_iff]
  constructor
  · rintro ⟨n,natural,fits⟩
    split at natural
    · next here =>
      cases natural
      exact ⟨here.1,List.all_eq_true.mp here.2,by rw [(word?_exact _ _).mp fits,Nat.ofDigitChars_eq_foldl]; rfl⟩
    · cases natural
  · intro decimal
    refine ⟨digitsValue run,if_pos ⟨decimal.some,List.all_eq_true.mpr decimal.only⟩,(word?_exact _ _).mpr ?_⟩
    rw [decimal.value,Nat.ofDigitChars_eq_foldl]
    rfl

theorem infinite_decimal (v : Int64) : ¬ Decimal ['w'] v := fun decimal => by cases decimal.only 'w' (by simp)

theorem bounds_bracketed (opens : IsBracket opening) (closes : IsBracket closing) (body : List Char) (left right : Bound) :
    bounds? (String.ofList (bracketed opening closing body)) = some (left,right) ↔
      ∃ low high, parts body = [low,high] ∧ Bounds opening closing low high left right := by
  have start (v : Int64) : leftBound [opening] v = if opening = '[' then .closed v else .opened v := by simp [leftBound]
  have finish (v : Int64) : rightBound [closing] v = if closing = ']' then .closed v else .opened v := by simp [rightBound]
  unfold bounds?
  rw [fields_bracketed opens closes]
  match parts body with
  | [] | [_] | _ :: _ :: _ :: _ => simp
  | [low,high] =>
    simp only [List.cons_append,List.nil_append,Option.bind_eq_bind,Option.bind_eq_some_iff,valueField_exact,start]
    constructor
    · rintro ⟨v,lowest,rest⟩
      split at rest
      · next infinite =>
        cases rest
        exact ⟨low,high,rfl,⟨v,lowest,rfl⟩,.inl ⟨infinite,rfl⟩⟩
      · obtain ⟨w,highest,same⟩ := Option.bind_eq_some_iff.mp rest
        cases same
        exact ⟨low,high,rfl,⟨v,lowest,rfl⟩,.inr ⟨w,(valueField_exact _ _).mp highest,finish w⟩⟩
    · rintro ⟨_,_,⟨⟩,⟨v,lowest,rfl⟩,upper⟩
      refine ⟨v,lowest,?_⟩
      rcases upper with ⟨rfl,rfl⟩ | ⟨w,highest,rfl⟩
      · rfl
      · have finite : high ≠ ['w'] := by rintro rfl; exact infinite_decimal w highest
        rw [if_neg finite,(valueField_exact _ _).mpr highest,← finish]
        rfl

theorem splitOn_flatten (body : List Char) : (body.splitOn ',').flatten = body.filter (· ≠ ',') := by
  induction body with
  | nil => rfl
  | cons c cs ih =>
    obtain ⟨piece,pieces,cut⟩ := List.exists_cons_of_ne_nil (List.splitOn_ne_nil ',' cs)
    rw [List.splitOn_cons_eq_if_modifyHead]
    by_cases comma : c = ','
    · subst comma; simpa using ih
    · rw [cut] at ih ⊢
      simpa [comma] using ih

theorem parts_flatten (body : List Char) : (parts body).flatten = squeeze (body.filter (· ≠ ',')) := by
  unfold parts
  rw [List.flatten_filter_ne_nil,← splitOn_flatten]
  unfold squeeze
  rw [List.filter_flatten]

theorem part_member (body : List Char) (c : Char) :
    (∃ part ∈ parts body, c ∈ part) ↔ c ∈ body ∧ isBlank c = false ∧ c ≠ ',' := by
  rw [← List.mem_flatten,parts_flatten]
  simp [squeeze]

theorem bounds_inside (two : parts body = [low,high]) (bounds : Bounds opening closing low high left right) :
    ∀ c ∈ body, inside c = true := by
  intro c member
  by_cases skipped : c = ',' ∨ isBlank c = true
  · rcases skipped with comma | dark
    · simp [inside,comma]
    · simp [inside,dark]
  · obtain ⟨comma,dark⟩ := not_or.mp skipped
    obtain ⟨part,isPart,here⟩ := (part_member body c).mpr ⟨member,by simpa using dark,comma⟩
    rw [two] at isPart
    obtain ⟨v,lowest,_⟩ := bounds.left
    rcases (by simpa using isPart : part = low ∨ part = high) with rfl | rfl
    · simp [inside,lowest.only c here]
    · rcases bounds.right with ⟨rfl,_⟩ | ⟨w,highest,_⟩
      · simp [inside,List.mem_singleton.mp here]
      · simp [inside,highest.only c here]

structure IsWord (word : List Char) : Prop where
  some : word ≠ []
  visible : ∀ c ∈ word, isBlank c = false
  closed : ',' ∉ word

theorem decimal_word {run : List Char} {v : Int64} (decimal : Decimal run v) : IsWord run :=
  ⟨decimal.some,fun c member => part_visible c (by simp [decimal.only c member]),fun comma => by cases decimal.only _ comma⟩

theorem bounds_words (bounds : Bounds opening closing low high left right) : IsWord low ∧ IsWord high := by
  obtain ⟨v,lowest,_⟩ := bounds.left
  refine ⟨decimal_word lowest,?_⟩
  rcases bounds.right with ⟨rfl,_⟩ | ⟨w,highest,_⟩
  · exact ⟨by decide,by simp [isBlank],by decide⟩
  · exact decimal_word highest

theorem parts_words (two : parts body = [low,high]) : IsWord low ∧ IsWord high := by
  have word (part : List Char) (isPart : part ∈ parts body) : IsWord part := by
    have members (c : Char) (here : c ∈ part) := (part_member body c).mp ⟨part,isPart,here⟩
    refine ⟨?_,fun c here => (members c here).2.1,fun comma => (members _ comma).2.2 rfl⟩
    unfold parts at isPart
    simpa using (List.mem_filter.mp isPart).2
  exact ⟨word low (by simp [two]),word high (by simp [two])⟩

variable {piece word : List Char}

theorem padded_self (word : List Char) : Padded word word := ⟨[],[],nofun,(List.append_nil word).symm⟩

theorem padded_closed (padded : Padded piece word) (closed : ',' ∉ word) : ',' ∉ piece := by
  obtain ⟨before,after,dark,rfl⟩ := padded
  have outside : ',' ∉ before ++ after := fun comma => by cases dark _ comma
  simp_all

theorem squeeze_visible (visible : ∀ c ∈ word, isBlank c = false) : squeeze word = word :=
  List.filter_eq_self.mpr fun c member => by simp [visible c member]

theorem padded_squeeze (padded : Padded piece word) (visible : ∀ c ∈ word, isBlank c = false) : squeeze piece = word := by
  obtain ⟨before,after,dark,rfl⟩ := padded
  have gone : squeeze before = [] ∧ squeeze after = [] := by
    refine ⟨List.filter_eq_nil_iff.mpr fun c member => ?_,List.filter_eq_nil_iff.mpr fun c member => ?_⟩ <;>
      simp [dark c (by simp [member])]
  have whole : squeeze (before ++ word ++ after) = squeeze before ++ squeeze word ++ squeeze after := by
    simp [squeeze]
  rw [whole,gone.1,gone.2,squeeze_visible visible]
  simp

theorem literal_pieces (literal : Literal body low high) (lower : IsWord low) (upper : IsWord high) :
    ∃ left right, body = left ++ ',' :: right ∧ body.splitOn ',' = [left,right] ∧ Padded left low ∧ Padded right high := by
  obtain ⟨left,right,rfl,first,second⟩ := literal
  refine ⟨left,right,rfl,?_,first,second⟩
  rw [List.splitOn_append_cons_self_of_not_mem (padded_closed first lower.closed),
    List.splitOn_eq_singleton (padded_closed second upper.closed)]

theorem literal_parts (literal : Literal body low high) (lower : IsWord low) (upper : IsWord high) :
    parts body = [low,high] := by
  obtain ⟨left,right,_,cut,first,second⟩ := literal_pieces literal lower upper
  unfold parts
  rw [cut,List.map_cons,List.map_singleton,padded_squeeze first lower.visible,padded_squeeze second upper.visible]
  simp [lower.some,upper.some]

theorem count_one (one : body.count ',' = 1) : ∃ left right, body = left ++ ',' :: right ∧ ',' ∉ left ∧ ',' ∉ right := by
  obtain ⟨left,right,rfl⟩ := List.append_of_mem (List.count_pos_iff.mp (by omega : 0 < body.count ','))
  rw [List.count_append,List.count_cons_self] at one
  exact ⟨left,right,rfl,List.count_eq_zero.mp (by omega),List.count_eq_zero.mp (by omega)⟩

theorem literal_exact (two : parts body = [low,high]) :
    Literal body low high ↔ body.count ',' = 1 ∧ ∀ piece ∈ body.splitOn ',', Solid piece := by
  obtain ⟨lower,upper⟩ := parts_words two
  constructor
  · intro literal
    obtain ⟨left,right,rfl,cut,first,second⟩ := literal_pieces literal lower upper
    have none := List.count_eq_zero.mpr (padded_closed first lower.closed)
    have neither := List.count_eq_zero.mpr (padded_closed second upper.closed)
    refine ⟨by rw [List.count_append,List.count_cons_self,none,neither],fun piece member => ?_⟩
    rw [cut] at member
    rcases (by simpa using member : piece = left ∨ piece = right) with rfl | rfl
    · exact ⟨low,lower.visible,first⟩
    · exact ⟨high,upper.visible,second⟩
  · rintro ⟨one,solid⟩
    obtain ⟨left,right,rfl,before,behind⟩ := count_one one
    have cut : (left ++ ',' :: right).splitOn ',' = [left,right] := by
      rw [List.splitOn_append_cons_self_of_not_mem before,List.splitOn_eq_singleton behind]
    rw [cut] at solid
    obtain ⟨first,firstVisible,firstPadded⟩ := solid left (by simp)
    obtain ⟨second,secondVisible,secondPadded⟩ := solid right (by simp)
    have both : [first,second].filter (· ≠ []) = [low,high] := by
      rw [← two,parts,cut,List.map_cons,List.map_singleton,padded_squeeze firstPadded firstVisible,
        padded_squeeze secondPadded secondVisible]
    have whole : [first,second].filter (· ≠ []) = [first,second] :=
      List.filter_eq_self.mpr (List.length_filter_eq_length_iff.mp (by rw [both]; rfl))
    rw [whole] at both
    cases both
    exact ⟨left,right,rfl,firstPadded,secondPadded⟩

end TimePetri.Script
