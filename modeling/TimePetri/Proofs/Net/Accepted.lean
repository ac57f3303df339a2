import Mathlib
import TimePetri.Proofs.Net.Overflow
import TimePetri.Proofs.Script.Stream
import TimePetri.Proofs.Script.Viable

namespace TimePetri

open Script

namespace Script

variable {text : String} {front rest : List Token} {token : Token}

theorem tokens_more (stands : tokens text = front ++ token :: rest) : ∀ other ∈ front, other.kind ≠ .eof := by
  obtain ⟨before,last,shape,_,inside,_⟩ := tokensFrom_shape .start text.toList
  have same := congrArg List.dropLast (stands.symm.trans shape)
  rw [List.dropLast_append_cons,List.dropLast_concat] at same
  intro other member kind
  exact inside other (same ▸ List.mem_append_left _ member) (.inl kind)

theorem whole_sentence (legal : ∀ token ∈ tokens text, token.kind ≠ .illegal) (whole : (readingOf text).ending = none) :
    (tokens text).map Token.kind ∈ sentence.matches' := by
  obtain ⟨clauses,last,passes⟩ := reading_whole _ whole
  obtain ⟨front,final,shape,ends,more,_⟩ := tokensFrom_shape .start text.toList
  have stands : tokens text = front ++ [final] := shape
  have kind : final.kind = .eof := ends.resolve_right (legal final (by simp [stands]))
  rw [stands] at passes ⊢
  obtain ⟨first,middle,second,before,behind,_⟩ := passes_parts passes
  cases behind with
  | one taken further =>
    have fits := (step_suits middle final).fits _ (by rw [taken])
    rw [if_pos kind,kind] at fits
    have here : [Kind.eof] ∈ middle.rest := by
      rw [Mode.rest,ahead_exact,fits]
      exact rfl
    rw [List.map_append,← rest_top,passes_exact before fun other member ends => more other member (.inl ends)]
    rwa [List.map_singleton,kind]

end Script

namespace Net

theorem sentence_refused {text : String} {reason : ParseError} (legal : ∀ token ∈ tokens text, token.kind ≠ .illegal)
    (grammatical : (tokens text).map Token.kind ∈ sentence.matches') (failed : (parse false text).value = .error reason) :
    (∃ token cause, reason = .number token cause) ∨ (∃ token name cause, reason = .interval token name cause) ∨
      ∃ token ∈ tokens text, token.kind = .interval ∧ reason = .lexical token := by
  rcases parse_refused false text reason failed with ⟨clause,_,refused⟩ | breaks
  · cases refused with
    | full keeps => exact .inl ⟨_,_,rfl⟩
    | apart cause => exact .inr (.inl ⟨_,_,cause,rfl⟩)
    | undeclared strictly => cases strictly
  · obtain ⟨front,token,rest,clauses,last,stands,passes,stops⟩ := reading_breaks _ breaks
    have member : token ∈ tokens text := by rw [stands]; simp
    cases step_refused last token reason stops with
    | illegal kind => exact absurd kind (legal token member)
    | interval kind => exact .inr (.inr ⟨token,member,kind,rfl⟩)
    | number cause => exact .inl ⟨token,cause,rfl⟩
    | bounds name cause => exact .inr (.inl ⟨token,name,cause,rfl⟩)
    | unexpected expected =>
      rw [stands,List.map_append,List.map_cons] at grammatical
      exact absurd grammatical (unexpected_exact passes (tokens_more stands) stops _)

theorem unexpected_first {strict : Bool} {text : String} {expected : Expectation} {token : Token}
    (failed : (parse strict text).value = .error (.unexpected expected token)) :
    ∃ front rest, tokens text = front ++ token :: rest ∧ Viable (front.map Token.kind) ∧
      ¬ Viable ((front ++ [token]).map Token.kind) := by
  rcases parse_refused strict text _ failed with ⟨clause,_,refused⟩ | breaks
  · cases refused
  · obtain ⟨front,other,rest,clauses,last,stands,passes,stops⟩ := reading_breaks _ breaks
    have more := tokens_more stands
    cases step_refused last other _ stops
    refine ⟨front,rest,stands,passes_viable passes more,?_⟩
    rintro ⟨kinds,fits⟩
    rw [List.map_append,List.append_assoc] at fits
    exact unexpected_exact passes more stops kinds fits

theorem parse_grammar (text : String) :
    ((∀ token ∈ tokens text, token.kind ≠ .illegal) →
      ((tokens text).map Token.kind ∉ sentence.matches' → ∃ reason, (parse false text).value = .error reason) ∧
      ((tokens text).map Token.kind ∈ sentence.matches' →
        (∃ net, (parse false text).value = .ok net) ∨
        (∃ token cause, (parse false text).value = .error (.number token cause)) ∨
        (∃ token name cause, (parse false text).value = .error (.interval token name cause)) ∨
        ∃ token ∈ tokens text, token.kind = .interval ∧ (parse false text).value = .error (.lexical token))) ∧
      ∀ strict expected token, (parse strict text).value = .error (.unexpected expected token) →
        ∃ front rest, tokens text = front ++ token :: rest ∧ Viable (front.map Token.kind) ∧
          ¬ Viable ((front ++ [token]).map Token.kind) := by
  refine ⟨fun legal => ⟨fun ungrammatical => ?_,fun grammatical => ?_⟩,fun strict expected token => unexpected_first⟩
  · cases parsed : (parse false text).value with
    | error reason => exact ⟨reason,rfl⟩
    | ok net =>
      obtain ⟨_,whole⟩ := (ofReading_ok _ _ _).mp parsed
      exact absurd (whole_sentence legal whole) ungrammatical
  · cases parsed : (parse false text).value with
    | ok net => exact .inl ⟨net,rfl⟩
    | error reason =>
      rcases sentence_refused legal grammatical parsed with
        ⟨token,cause,rfl⟩ | ⟨token,name,cause,rfl⟩ | ⟨token,member,kind,rfl⟩
      · exact .inr (.inl ⟨token,cause,rfl⟩)
      · exact .inr (.inr (.inl ⟨token,name,cause,rfl⟩))
      · exact .inr (.inr (.inr ⟨token,member,kind,rfl⟩))

-- A test behind the arrow is refused at its decoration. An interval with its ends the wrong
-- way round is none of the grammar's business.
theorem parse_grammar_output :
    ((tokens "tr t -> p?2").map Token.kind ∉ sentence.matches' ∧
      (∃ reason, (parse false "tr t -> p?2").value = .error reason) ∧
      ∃ front rest, tokens "tr t -> p?2" = front ++ ⟨.read,"2",⟨1,10⟩⟩ :: rest ∧ Viable (front.map Token.kind) ∧
        ¬ Viable ((front ++ [⟨.read,"2",⟨1,10⟩⟩]).map Token.kind)) ∧
      (tokens "tr t [3,2]").map Token.kind ∈ sentence.matches' ∧
      ∃ token name cause, (parse false "tr t [3,2]").value = .error (.interval token name cause) := by
  have tested : (tokens "tr t -> p?2").map Token.kind = [.transition,.ident,.arrow,.ident,.read,.eof] := by cbv
  have timed : (tokens "tr t [3,2]").map Token.kind = [.transition,.ident,.interval,.eof] := by cbv
  have legal (text : String) (kinds : List Kind) (same : (tokens text).map Token.kind = kinds) (none : .illegal ∉ kinds) :
      ∀ token ∈ tokens text, token.kind ≠ .illegal :=
    fun token member kind => none (same ▸ kind ▸ List.mem_map_of_mem member)
  have ungrammatical : (tokens "tr t -> p?2").map Token.kind ∉ sentence.matches' := by rw [tested]; decide
  have grammatical : (tokens "tr t [3,2]").map Token.kind ∈ sentence.matches' := by rw [timed]; decide
  have refused : (parse false "tr t -> p?2").value = .error (.unexpected .transitionOutput ⟨.read,"2",⟨1,10⟩⟩) := by cbv
  have empty : (parse false "tr t [3,2]").value =
      .error (.interval ⟨.interval,"[ 3 2 ]",⟨1,6⟩⟩ "t" (.empty ⟨.closed 3,.closed 2⟩)) := by cbv
  have first := parse_grammar "tr t -> p?2"
  have some := (first.1 (legal _ _ tested (by decide))).1 ungrammatical
  refine ⟨⟨ungrammatical,some,first.2 false _ _ refused⟩,grammatical,?_⟩
  rcases ((parse_grammar "tr t [3,2]").1 (legal _ _ timed (by decide))).2 grammatical with
    ⟨net,parsed⟩ | ⟨token,cause,parsed⟩ | interval | ⟨token,_,_,parsed⟩
  · cases empty.symm.trans parsed
  · cases empty.symm.trans parsed
  · exact interval
  · cases empty.symm.trans parsed

end Net

end TimePetri
