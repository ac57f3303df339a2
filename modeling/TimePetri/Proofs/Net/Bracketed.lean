import TimePetri.Proofs.Net.Timing
import TimePetri.Proofs.Script.Brackets

namespace TimePetri

open Script

namespace Net

variable {strict : Bool} {text name : String} {front rest : List Token} {net : Net} {opening closing : Char}
  {body after low high : List Char} {left right : Bound} {here : Position}

theorem heading_reached (stands : tokens text = front ++ rest) (read : (ofReading strict (readingFrom .top front)).value = .ok net)
    (named : Heading.none.along front = .named name) :
    ∃ mode, mode.heading = .named name ∧ (parse strict text).value = Reader.run strict net mode rest := by
  obtain ⟨clauses,last,passes,applied⟩ := front_read read
  exact ⟨last,(passes_literals passes trivial).2.1.trans named,by rw [Reader.parse_run,stands,Reader.run_passes passes applied]⟩

-- More is read than the grammar has: blanks inside a number, further commas, or both.
theorem parse_bracketed (strict : Bool) (text name : String) (front : List Token) (net : Net) (here : Position)
    (opening closing : Char) (body after : List Char)
    (stands : tokens text = front ++ tokensFrom here (opening :: (body ++ closing :: after)))
    (read : (ofReading strict (readingFrom .top front)).value = .ok net) (named : Heading.none.along front = .named name)
    (opens : IsBracket opening) (closes : IsBracket closing) (unbracketed : ∀ c ∈ body, ¬ IsBracket c) :
    (∀ low high left right, parts body = [low,high] → Bounds opening closing low high left right →
      (parse strict text).value = (do
        let token := bracketToken opening closing body here
        let interval ← (Interval.make left right).mapError (.interval token name)
        let next ← net.apply strict (.interval name interval token)
        Reader.run strict next (.body (.transition name) .measured)
          (tokensFrom (here.after (opening :: (body ++ [closing]))) after))) ∧
      ((¬ ∃ low high left right, parts body = [low,high] ∧ Bounds opening closing low high left right) →
        ∃ token, token.position = here ∧ (parse strict text).value = .error (.lexical token)) ∧
      (∀ low high left right, Literal body low high → Bounds opening closing low high left right → parts body = [low,high]) ∧
      ∀ low high, parts body = [low,high] →
        (Literal body low high ↔ body.count ',' = 1 ∧ ∀ piece ∈ body.splitOn ',', Solid piece) := by
  obtain ⟨mode,heading,parsed⟩ := heading_reached stands read named
  refine ⟨fun low high left right two bounds => ?_,fun other => ?_,fun low high left right literal bounds => ?_,
    fun low high two => literal_exact two⟩
  · have found := (bounds_bracketed opens closes body left right).mpr ⟨low,high,two,bounds⟩
    have interval : readInterval (bracketToken opening closing body here) name =
        (Interval.make left right).mapError (.interval (bracketToken opening closing body here) name) := by
      unfold readInterval bracketToken
      rw [found]
    rw [parsed,tokens_inside opens closes (bounds_inside two bounds),Reader.run_interval heading rfl,interval]
  · by_cases all : ∀ c ∈ body, inside c = true
    · refine ⟨bracketToken opening closing body here,rfl,?_⟩
      have unread : bounds? (bracketToken opening closing body here).text = none := by
        refine Option.eq_none_iff_forall_ne_some.mpr fun both found => other ?_
        obtain ⟨low,high,two,bounds⟩ := (bounds_bracketed opens closes body both.1 both.2).mp found
        exact ⟨low,high,both.1,both.2,two,bounds⟩
      have lexical : readInterval (bracketToken opening closing body here) name =
          .error (.lexical (bracketToken opening closing body here)) := by rw [readInterval,unread]
      rw [parsed,tokens_inside opens closes all,Reader.run_interval heading rfl,lexical]
      rfl
    · have outside : ∃ c ∈ body, inside c = false := by simpa using all
      obtain ⟨shown,only⟩ := tokens_outside opens unbracketed outside here (closing :: after)
      exact ⟨_,rfl,by rw [parsed,only,Reader.run_stops (Reader.step_illegal rfl)]⟩
  · obtain ⟨lower,upper⟩ := bounds_words bounds
    exact literal_parts literal lower upper

-- A blank inside a number and a second comma are read over. Without a comma nothing is left
-- to be the second bound.
theorem parse_bracketed_loose :
    Net.time <$> (parse false "tr t [1 2,30]").value = .ok #[⟨.closed 12,.closed 30⟩] ∧
      ¬ Literal "1 2,30".toList ['1','2'] ['3','0'] ∧
      Net.time <$> (parse false "tr t ]0,,w[").value = .ok #[⟨.opened 0,.infinite⟩] ∧
      ¬ Literal "0,,w".toList ['0'] ['w'] ∧
      ∃ token, token.position = ⟨1,6⟩ ∧ (parse false "tr t [12 30]").value = .error (.lexical token) := by
  have read : (ofReading false (readingFrom .top [⟨.transition,"tr",⟨1,1⟩⟩,⟨.ident,"t",⟨1,4⟩⟩])).value =
      .ok (empty.ensureTransition "t").2 := by cbv
  have spaced := parse_bracketed false "tr t [1 2,30]" "t" _ _ ⟨1,6⟩ '[' ']' "1 2,30".toList [] (by cbv) read rfl
    (.inl rfl) (.inr rfl) (by simp [IsBracket])
  have doubled := parse_bracketed false "tr t ]0,,w[" "t" _ _ ⟨1,6⟩ ']' '[' "0,,w".toList [] (by cbv) read rfl
    (.inr rfl) (.inl rfl) (by simp [IsBracket])
  have missing := parse_bracketed false "tr t [12 30]" "t" _ _ ⟨1,6⟩ '[' ']' "12 30".toList [] (by cbv) read rfl
    (.inl rfl) (.inr rfl) (by simp [IsBracket])
  have spacedParts : parts "1 2,30".toList = [['1','2'],['3','0']] := by decide
  have doubledParts : parts "0,,w".toList = [['0'],['w']] := by decide
  have missingParts : parts "12 30".toList = [['1','2','3','0']] := by decide
  have twelve : Bounds '[' ']' ['1','2'] ['3','0'] (.closed 12) (.closed 30) :=
    ⟨⟨12,⟨by decide,by simp,by decide⟩,rfl⟩,.inr ⟨30,⟨by decide,by simp,by decide⟩,rfl⟩⟩
  have zero : Bounds ']' '[' ['0'] ['w'] (.opened 0) .infinite :=
    ⟨⟨0,⟨by decide,by simp,by decide⟩,rfl⟩,.inl ⟨rfl,rfl⟩⟩
  refine ⟨?_,fun literal => ?_,?_,fun literal => ?_,missing.2.1 ?_⟩
  · rw [spaced.1 _ _ _ _ spacedParts twelve]
    cbv
  · obtain ⟨word,visible,before,after,dark,same⟩ :=
      ((spaced.2.2.2 _ _ spacedParts).mp literal).2 ['1',' ','2'] (by decide)
    obtain rfl : ['1','2'] = word := padded_squeeze ⟨before,after,dark,same⟩ visible
    cases before with
    | nil => cases same
    | cons b bs =>
      obtain ⟨rfl,_⟩ := List.cons.inj same
      cases dark '1' (by simp)
  · rw [doubled.1 _ _ _ _ doubledParts zero]
    cbv
  · exact absurd ((doubled.2.2.2 _ _ doubledParts).mp literal).1 (by decide)
  · rintro ⟨low,high,left,right,same,_⟩
    rw [missingParts] at same
    cases same

end Net

end TimePetri
