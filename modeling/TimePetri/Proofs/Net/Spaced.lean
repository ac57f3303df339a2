import Mathlib
import TimePetri.Proofs.Script.Spaced

namespace TimePetri

open Script

namespace Net

variable {one other : String}

theorem parse_same (strict : Bool) (same : glyphs one.toList = glyphs other.toList) :
    (parse strict one).value.mapError ParseError.unplaced = (parse strict other).value.mapError ParseError.unplaced := by
  rw [← ofReading_glyphs,← ofReading_glyphs,same]

theorem parse_spaced (strict : Bool) :
    (∀ front chunks, Spacing front → (List.range (chunks.length + 1)).map (fun call =>
        ((Cursor.scanned (spread front chunks) call).kind,(Cursor.scanned (spread front chunks) call).text)) =
      chunks.map (fun chunk => (chunk.form.kind,String.ofList chunk.form.shown)) ++ [(.eof,"EOF")]) ∧
    (∀ opening closing low high, IsBracket opening → IsBracket closing → Run low → Run high ∨ high = ['w'] →
      ∃ form : Form, form.source = opening :: (low ++ ',' :: high ++ [closing]) ∧ form.kind = .interval ∧
        form.shown = shownInterval opening low high closing) ∧
    (∀ front back chunks others, Spacing front → Spacing back → chunks.map Chunk.form = others.map Chunk.form →
      (parse strict (spread front chunks)).value.mapError ParseError.unplaced =
        (parse strict (spread back others)).value.mapError ParseError.unplaced) ∧
    ∀ text call before skipped gap rest, (∀ k, k < call → ¬ (Cursor.scanned text k).kind.Last) →
      text.toList = before ++ skipped ++ rest → (Cursor.reached text call).rest = skipped ++ rest → Skipped skipped rest →
      Spacing gap → Delimited gap →
      (parse strict (String.ofList (before ++ gap ++ rest))).value.mapError ParseError.unplaced =
        (parse strict text).value.mapError ParseError.unplaced := by
  refine ⟨fun front chunks spacing => ?_,fun _ _ _ _ => interval_form,fun front back chunks others spacing spaced same => ?_,
    fun text call before skipped gap rest legal whole behind skips spacing delimited => ?_⟩
  · have calls := glyphs_calls (spread front chunks)
    rw [glyphs_spread spacing,List.length_append,List.length_map,List.length_singleton] at calls
    have shown := congrArg (List.map fun token => (token.kind,token.text)) calls
    simpa [Function.comp_def,Form.token,glyph] using shown.symm
  · have tokens := congrArg (List.map Form.token) same
    rw [List.map_map,List.map_map] at tokens
    refine parse_same strict ?_
    rw [glyphs_spread spacing,glyphs_spread spaced]
    exact congrArg (· ++ [glyph .eof "EOF".toList]) tokens
  · refine parse_same strict ?_
    rw [String.toList_ofList]
    exact glyphs_respaced legal whole behind skips spacing delimited

def noted (form : Form) (note : List Char) (within : note.all Cursor.inLine = true) : Chunk :=
  ⟨form,' ' :: ('#' :: note ++ ['\n']),.blank rfl (.comment (List.all_eq_true.mp within) rfl .none),⟨_,_,rfl,rfl⟩⟩

def tabbed (form : Form) : Chunk := ⟨form,['\t'],.blank rfl .none,⟨_,_,rfl,rfl⟩⟩

def inhibited : List Chunk :=
  [noted (.keyword ['T','r'] .transition (by decide)) ['1',' ','#'] rfl,
    noted (.name ['{','1','}'] (.braced (.plain '1' (by decide) .close))) [] rfl,
    noted (.label [' '] ['a','#'] (by simp [isBlank]) (.bare 'a' ['#'] (by decide) (by simp [isBlank]))) ['x'] rfl,
    noted (.interval ']' '[' ['1',',','w'] (.inr rfl) (.inl rfl) (by simp [inside,isBlank])) [] rfl,
    noted (.name ['p'] (.bare 'p' [] (by decide) nofun (by decide))) [] rfl,
    noted (.number (.weight .inhibitor) ⟨['2'],some 'K',by simp,by simp,by simp [isMultiplier,multiplier?]⟩ nofun) [] rfl,
    noted .arrow [] rfl]

def inhibitedTokens : List (Kind × String) :=
  [(.transition,"tr"),(.ident,"{1}"),(.label,"a#"),(.interval,"] 1 w ["),(.ident,"p"),(.inhibitor,"2K"),(.arrow,"->"),
    (.eof,"EOF")]

theorem parse_spaced_inhibited :
    (spread [] inhibited = "Tr #1 #\n{1} #\n: a# #x\n]1,w[ #\np #\n?-2K #\n-> #\n") ∧
    (List.range (inhibited.length + 1)).map (fun call => ((Cursor.scanned (spread [] inhibited) call).kind,
        (Cursor.scanned (spread [] inhibited) call).text)) = inhibitedTokens ∧
    (∃ form : Form, form.source = "[1,23]".toList ∧ form.kind = .interval ∧ form.shown = "[ 1 23 ]".toList) ∧
    (parse false (spread [] inhibited)).value.mapError ParseError.unplaced =
      (parse false (spread ['\n'] (inhibited.map (tabbed ·.form)))).value.mapError ParseError.unplaced ∧
    (parse false "tr t p # two\n*2->q").value.mapError ParseError.unplaced =
      (parse false "tr t p*2->q").value.mapError ParseError.unplaced := by
  obtain ⟨scanned,intervals,laid,respaced⟩ := parse_spaced false
  have shown : inhibited.map (fun chunk => (chunk.form.kind,String.ofList chunk.form.shown)) ++ [(.eof,"EOF")] =
      inhibitedTokens := by decide
  have legal : ∀ k, k < 3 → ¬ (Cursor.scanned "tr t p*2->q" k).kind.Last := by
    have first : (Cursor.scanned "tr t p*2->q" 0).kind = .transition := by cbv
    have second : (Cursor.scanned "tr t p*2->q" 1).kind = .ident := by cbv
    have third : (Cursor.scanned "tr t p*2->q" 2).kind = .ident := by cbv
    intro k early
    interval_cases k
    · simp [Kind.Last,first]
    · simp [Kind.Last,second]
    · simp [Kind.Last,third]
  have ahead : (Cursor.reached "tr t p*2->q" 3).rest = "*2->q".toList := by cbv
  have gap : Spacing (' ' :: ('#' :: " two".toList ++ '\n' :: [])) :=
    .blank rfl (.comment (by simp [Cursor.inLine]) rfl .none)
  have text : String.ofList ("tr t p".toList ++ ' ' :: ('#' :: " two".toList ++ '\n' :: []) ++ "*2->q".toList) =
      "tr t p # two\n*2->q" := by decide
  rw [← text]
  have low : Run ['1'] := ⟨by simp,by simp⟩
  have high : Run ['2','3'] := ⟨by simp,by simp⟩
  refine ⟨by decide,(scanned [] inhibited .none).trans shown,intervals '[' ']' _ _ (.inl rfl) (.inr rfl) low (.inl high),
    laid [] ['\n'] inhibited _ .none (.blank rfl .none) (by simp [tabbed]),?_⟩
  refine respaced "tr t p*2->q" 3 "tr t p".toList [] _ "*2->q".toList legal (by decide) ahead ?_ gap ⟨_,_,rfl,rfl⟩
  exact .none fun c here => by cases here; rfl

end Net

end TimePetri
