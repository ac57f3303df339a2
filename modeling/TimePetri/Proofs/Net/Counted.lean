import Mathlib
import TimePetri.Proofs.Net.Located
import TimePetri.Proofs.Script.Conversion
import TimePetri.Proofs.Script.Written

namespace TimePetri

open Script

namespace Script

variable {kind : Kind} {text : String} {call : Nat} {cause : NumberError}

theorem form_counts (form : Form) (counts : form.kind.Counts) : ∃ n : Numeral, n.written = form.shown := by
  cases form with
  | keyword word kind reserved =>
    have plain : ∀ entry ∈ keywords, entry.2 ∉ [.star,.read,.inhibitor,.marking] := by decide
    exact absurd counts (plain _ reserved)
  | number setting n long => exact ⟨n,rfl⟩
  | name | label | interval | digit | arrow | above | below => exact absurd counts (by simp [Kind.Counts,Form.kind])

theorem counts_more (counts : kind.Counts) : ¬ kind.Last := by
  intro last
  rcases last with rfl | rfl <;> exact absurd counts (by simp [Kind.Counts])

theorem scanned_form (more : ¬ (Cursor.scanned text call).kind.Last) :
    ∃ form : Form, form.kind = (Cursor.scanned text call).kind ∧ String.ofList form.shown = (Cursor.scanned text call).text := by
  unfold Cursor.scanned at more ⊢
  rw [next_exact] at more ⊢
  obtain ⟨form,_,kind,shown,_⟩ := lexMark_formed _ more
  exact ⟨form,kind,congrArg String.ofList shown⟩

theorem scanned_counts (counts : (Cursor.scanned text call).kind.Counts) :
    ∃ n : Numeral, n.text = (Cursor.scanned text call).text := by
  obtain ⟨form,kind,shown⟩ := scanned_form (counts_more counts)
  obtain ⟨n,written⟩ := form_counts form (kind ▸ counts)
  exact ⟨n,by rw [Numeral.text,written,shown]⟩

theorem convert_numeral (n : Numeral) :
    (∃ w, convert n.text = .ok w ∧ w.toInt = n.value) ∨ convert n.text = .error (.overflow n.text) := by
  rw [convert_exact,readNumber_numeral]
  cases fits : word? n.value with
  | some w => exact .inl ⟨w,rfl,(fits_value n w fits).2⟩
  | none => exact .inr rfl

theorem convert_overflows (n : Numeral) (failed : convert n.text = .error cause) : cause = .overflow n.text := by
  rcases convert_numeral n with ⟨w,read,_⟩ | full
  · rw [read] at failed
    cases failed
  · rw [full] at failed
    cases failed
    rfl

end Script

namespace Net

variable {strict : Bool} {text : String} {token : Token} {cause : NumberError}

theorem parse_number (failed : (parse strict text).value = .error (.number token cause)) :
    cause = .overflow token.text := by
  rcases parse_refused strict text _ failed with ⟨clause,_,refused⟩ | breaks
  · cases refused with
    | full keeps => rfl
  · obtain ⟨other,member,refused⟩ := ending_refused text breaks
    cases refused with
    | number _ counts unread =>
      obtain ⟨call,rfl,_⟩ := tokens_scanned token member
      obtain ⟨n,same⟩ := scanned_counts counts
      rw [← convert_exact,← same] at unread
      rw [convert_overflows n unread,same]

theorem parse_counts (strict : Bool) (text : String) :
    (∀ call, (Cursor.scanned text call).kind.Counts →
      (∃ n : Numeral, n.text = (Cursor.scanned text call).text ∧
        ∀ w, convert (Cursor.scanned text call).text = .ok w → w.toInt = n.value) ∧
      convert (Cursor.scanned text call).text ≠ .error .empty ∧
      (∀ other, convert (Cursor.scanned text call).text ≠ .error (.invalid other)) ∧
      ∀ w, convert (Cursor.scanned text call).text = .ok w → 0 ≤ w.toInt) ∧
    ∀ token cause, (parse strict text).value = .error (.number token cause) → cause = .overflow token.text := by
  refine ⟨fun call counts => ?_,fun token cause => parse_number⟩
  obtain ⟨n,same⟩ := scanned_counts counts
  rw [← same]
  rcases convert_numeral n with ⟨w,read,value⟩ | full
  · have worth : ∀ other, convert n.text = .ok other → other.toInt = n.value := by
      intro other again
      cases read.symm.trans again
      exact value
    refine ⟨⟨n,rfl,worth⟩,?_,fun other => ?_,fun other again => ?_⟩
    · rw [read]
      exact nofun
    · rw [read]
      exact nofun
    · rw [worth other again]
      exact Int.natCast_nonneg _
  · rw [full]
    exact ⟨⟨n,rfl,nofun⟩,nofun,nofun,nofun⟩

theorem parse_counts_full :
    (∃ cause, (parse false "pl p (10E)").value = .error (.number ⟨.marking,"10E",⟨1,6⟩⟩ cause) ∧ cause = .overflow "10E") ∧
      (∃ cause, (parse false "tr t p*9E p*9E").value = .error (.number ⟨.star,"9E",⟨1,12⟩⟩ cause) ∧
        cause = .overflow "9E") ∧
      ∃ w, convert (Cursor.scanned "tr t p*9E p*9E" 5).text = .ok w ∧ 0 ≤ w.toInt := by
  have marking : (parse false "pl p (10E)").value = .error (.number ⟨.marking,"10E",⟨1,6⟩⟩ (.overflow "10E")) := by cbv
  have sum : (parse false "tr t p*9E p*9E").value = .error (.number ⟨.star,"9E",⟨1,12⟩⟩ (.overflow "9E")) := by cbv
  have star : Cursor.scanned "tr t p*9E p*9E" 5 = ⟨.star,"9E",⟨1,12⟩⟩ := by cbv
  have read : convert "9E" = .ok 9000000000000000000 := by cbv
  obtain ⟨_,large⟩ := parse_counts false "pl p (10E)"
  obtain ⟨counts,numbers⟩ := parse_counts false "tr t p*9E p*9E"
  obtain ⟨_,_,_,nonneg⟩ := counts 5 (by rw [star]; simp [Kind.Counts])
  rw [star] at nonneg ⊢
  exact ⟨⟨_,marking,large _ _ marking⟩,⟨_,sum,numbers _ _ sum⟩,_,read,nonneg _ read⟩

end Net

end TimePetri
