import Mathlib
import TimePetri.Proofs.Print.Rebuild
import TimePetri.Proofs.Priority.Transitive

namespace TimePetri.Net

open Script Priority

variable {net other : Net}

theorem parse_glyphs (strict : Bool) (text : String) (net : Net) :
    (parse strict text).value = .ok net ↔
      (ofReading strict (readingFrom .top (glyphs text.toList))).value = .ok net := by
  rw [ofReading_glyphs,mapError_ok]

theorem render_parses (sound : net.Sound) (spelled : net.Spelled) (fits : ∀ t p, (net.row t).produced p < wordLimit)
    (strict : Bool) : (parse strict net.render.text).value = .ok net := by
  rw [parse_glyphs,render_reading sound spelled fits,ofReading_ok,applyAll_fold]
  exact ⟨clauses_rebuild sound fits strict,rfl⟩

theorem closePriorities_sound (sound : net.Sound) (passes : Nat)
    (closed : net.closePriorities.2.passes = .ok passes) :
    net.closePriorities.1.Sound := by
  have closes := close_closes net.prio net.transitions sound.ordered passes closed
  refine { sound with tabled := ?_, ordered := closes.ordered, inTable := closes.inTable sound.inTable }
  exact { sound.tabled with prio := closes.size.trans sound.tabled.prio }

theorem closePriorities_spelled (spelled : net.Spelled) : net.closePriorities.1.Spelled :=
  spelled_same spelled rfl rfl rfl rfl rfl

theorem parse_render (strict : Bool) (text : String) (net other : Net) (parsed : (parse strict text).value = .ok net)
    (given : other = net ∨ (∃ passes, net.closePriorities.2.passes = .ok passes) ∧ other = net.closePriorities.1)
    (calm : ∀ operation, other.render.fault ≠ some (.overflow operation)) :
    other.render.fault = none ∧ ∀ again : Bool, ∃ reparsed, (parse again other.render.text).value = .ok reparsed ∧
      reparsed = other ∧ reparsed.render.text = other.render.text := by
  obtain ⟨sound,spelled⟩ := parse_sound strict text net parsed
  obtain ⟨otherSound,otherSpelled⟩ : other.Sound ∧ other.Spelled := by
    rcases given with rfl | ⟨⟨passes,closed⟩,rfl⟩
    · exact ⟨sound,spelled⟩
    · exact ⟨closePriorities_sound sound passes closed,closePriorities_spelled spelled⟩
  rcases render_complete otherSound with ⟨none,fits⟩ | ⟨failed,_⟩
  · exact ⟨none,fun again => ⟨other,render_parses otherSound otherSpelled fits again,rfl,rfl⟩⟩
  · exact absurd failed (calm .add)

-- Every kind of arc, a label in braces and priorities to close.
def ranks : Net :=
  ⟨"",#["p","q","r"],#["","",""],#["a","b","c"],#["\x7bx\x7d","",""],#[⟨.opened 1,.closed 3⟩,.unconstrained,.unconstrained],
    #[(Marking.empty.set 0 2).set 2 5,.empty,.empty],#[Marking.empty.set 1 1,.empty,.empty],
    #[Marking.empty.set 0 (-2),.empty,.empty],#[Marking.empty.set 0 1,.empty,.empty],.empty,#[[1],[2],[]]⟩

theorem parse_render_ranks :
    (parse false "tr a : \x7bx\x7d ]1,3] p*2 q?-1 r?5 -> p*3\npr a > b\npr b > c\n").value = .ok ranks ∧
      ranks.closePriorities.1.prio = #[[1,2],[2],[]] ∧
      (parse true ranks.closePriorities.1.render.text).value = .ok ranks.closePriorities.1 := by
  have parsed : (parse false "tr a : \x7bx\x7d ]1,3] p*2 q?-1 r?5 -> p*3\npr a > b\npr b > c\n").value = .ok ranks := by cbv
  have closed : ranks.closePriorities.2.passes = .ok 2 := by cbv
  have calm : ranks.closePriorities.1.render.fault = none := by cbv
  have whole := parse_render false _ ranks _ parsed (.inr ⟨⟨2,closed⟩,rfl⟩) (by simp [calm])
  obtain ⟨reparsed,again,same,_⟩ := whole.2 true
  rw [same] at again
  refine ⟨parsed,?_,again⟩
  cbv

end TimePetri.Net
