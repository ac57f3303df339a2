import Mathlib
import TimePetri.Proofs.Script.Kept
import TimePetri.Proofs.Script.Places
import TimePetri.Reader.Basic

namespace TimePetri

open Script

namespace Net

variable {strict : Bool} {text : String} {reason : ParseError}

theorem parse_token (failed : (parse strict text).value = .error reason) :
    ∃ token ∈ tokens text, reason.token? = some token := by
  rcases parse_refused strict text reason failed with ⟨clause,member,refused⟩ | breaks
  · obtain ⟨token,kept,same⟩ := refused_kept refused
    exact ⟨token,readingOf_keeps text clause member token kept,same⟩
  · obtain ⟨token,member,refused⟩ := ending_refused text breaks
    exact ⟨token,member,refused_token refused⟩

theorem parse_lexical {token : Token} (failed : (parse strict text).value = .error (.lexical token)) :
    token ∈ tokens text ∧ (token.kind = .interval ∨ token.kind = .illegal) := by
  rcases parse_refused strict text _ failed with ⟨clause,_,refused⟩ | breaks
  · cases refused
  · obtain ⟨other,member,refused⟩ := ending_refused text breaks
    cases refused with
    | illegal kind => exact ⟨member,.inr kind⟩
    | interval kind => exact ⟨member,.inl kind⟩

theorem take_next (r : Reader) : r.take = ((Cursor.next ⟨r.rest,r.here⟩).1,
    { r with
      rest := (Cursor.next ⟨r.rest,r.here⟩).2.rest
      here := (Cursor.next ⟨r.rest,r.here⟩).2.here
      scanned := r.scanned + 1 }) := by
  rw [next_exact]
  rfl

theorem parse_places (strict : Bool) (text : String) :
    (∀ n, ∃ before skipped body,
      text.toList = before ++ skipped ++ body ++ (Cursor.reached text (n + 1)).rest ∧
      (Cursor.reached text n).rest = skipped ++ body ++ (Cursor.reached text (n + 1)).rest ∧
      Precedes skipped (body ++ (Cursor.reached text (n + 1)).rest) ∧
      (∀ others following, others ++ following = (Cursor.reached text n).rest → Precedes others following →
        others = skipped) ∧
      (Cursor.scanned text n).position = placeOf (before ++ skipped)) ∧
    (∀ m n, m ≤ n → (Cursor.scanned text m).position.UpTo (Cursor.scanned text n).position) ∧
    (∀ m n, m < n → (∀ k, k < n → ¬ (Cursor.scanned text k).kind.Last) →
      (Cursor.scanned text m).position.Before (Cursor.scanned text n).position) ∧
    (∀ r : Reader, r.take.1 = (Cursor.next ⟨r.rest,r.here⟩).1 ∧
      Cursor.mk r.take.2.rest r.take.2.here = (Cursor.next ⟨r.rest,r.here⟩).2) ∧
    (∀ reason, (parse strict text).value = .error reason →
      ∃ n, reason.token? = some (Cursor.scanned text n) ∧ reason.position? = some (Cursor.scanned text n).position) ∧
    ∀ token, (parse strict text).value = .error (.lexical token) → token.kind = .interval ∨
      token.kind = .illegal ∧ ∃ n, token = Cursor.scanned text n ∧ ∀ m, m < n → ¬ (Cursor.scanned text m).kind.Last := by
  refine ⟨fun n => ?_,fun m n => scanned_upTo text,fun m n => scanned_before text,fun r => ?_,fun reason failed => ?_,
    fun token failed => ?_⟩
  · obtain ⟨before,whole,here⟩ := reached_place text n
    obtain ⟨skipped,body,parts,precedes,place,_,_⟩ := scanned_exact text n
    refine ⟨before,skipped,body,?_,parts,precedes,fun others following same other => ?_,?_⟩
    · rw [whole,parts]
      simp
    · rw [← precedes_lead other,same,parts,List.append_assoc,precedes_lead precedes]
    · rw [place,here,← after_append,placeOf_exact]
  · rw [take_next]
    exact ⟨rfl,rfl⟩
  · obtain ⟨token,member,same⟩ := parse_token failed
    obtain ⟨n,rfl,_⟩ := tokens_scanned token member
    exact ⟨n,same,by rw [ParseError.position?,same]; rfl⟩
  · obtain ⟨member,kind⟩ := parse_lexical failed
    exact kind.imp_right fun illegal => ⟨illegal,tokens_scanned token member⟩

-- A comment, a label that stands on the line behind its transition, and a stray character.
def strayText : String := "tr t # first\n  : {a b} [1,2[\npl p §"

theorem parse_places_stray :
    (parse false strayText).value = .error (.lexical ⟨.illegal,"§",⟨3,6⟩⟩) ∧
      Cursor.scanned strayText 2 = ⟨.label,"{a b}",⟨2,5⟩⟩ ∧
      ∃ n, (Cursor.scanned strayText n).position = ⟨3,6⟩ ∧
        ∀ m, m < n → (Cursor.scanned strayText m).position.Before ⟨3,6⟩ := by
  have stray : (parse false strayText).value = .error (.lexical ⟨.illegal,"§",⟨3,6⟩⟩) := by cbv
  obtain ⟨_,_,increasing,_,_,lexical⟩ := parse_places false strayText
  obtain ⟨_,n,same,legal⟩ := (lexical _ stray).resolve_left (by simp)
  refine ⟨stray,by cbv,n,by rw [← same],fun m earlier => ?_⟩
  have before := increasing m n earlier legal
  rwa [← same] at before

end Net

end TimePetri
