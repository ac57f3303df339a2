import TimePetri.Proofs.Print.Arcs

namespace TimePetri

theorem written_fault (pieces : List Piece) (fault : Fault) (failed : (written pieces).fault = some fault) :
    .error fault ∈ pieces := by
  induction pieces with
  | nil => cases failed
  | cons piece rest ih =>
    cases piece with
    | error cause => cases failed; exact List.mem_cons_self
    | ok text => exact List.mem_cons_of_mem _ (ih failed)

theorem written_complete (pieces : List Piece) (complete : (written pieces).fault = none) :
    ∀ piece ∈ pieces, ∃ text, piece = .ok text := by
  induction pieces with
  | nil => exact nofun
  | cons piece rest ih =>
    cases piece with
    | error cause => cases complete
    | ok text =>
      intro other member
      rcases List.mem_cons.mp member with rfl | later
      · exact ⟨text,rfl⟩
      · exact ih complete other later

namespace Net

variable {net : Net} {t p : Nat}

def labelled (label : String) : String := if label.isEmpty then "" else " : " ++ label

def timed (interval : Interval) : String := if interval.isTrivial then "" else " " ++ interval.text

def headTexts (net : Net) : List String :=
  ["#\n# net " ++ net.name ++ "\n" ++ s!"# {net.places.size} places, {net.transitions.size} transitions\n#\n\n",
    if net.name.isEmpty then "" else "net " ++ net.name ++ "\n"]

def placeTexts (net : Net) (name : String) (p : Nat) : List String :=
  ["pl " ++ name,labelled (net.placeLabels[p]?.getD ""),markedText (net.initial.get p)]

def inputsOf (net : Net) (t : Nat) : List String := (net.row t).touched.flatMap fun p => (net.arcsOf t p).inputs

def outputsOf (net : Net) (t : Nat) : List String := (net.row t).touched.flatMap fun p => (net.arcsOf t p).outputs

def transitionTexts (net : Net) (name : String) (t : Nat) : List String :=
  ["tr " ++ name,labelled (net.transitionLabels[t]?.getD ""),timed (net.time[t]?.getD .unconstrained),
    spaced (net.inputsOf t) ++ " ->" ++ spaced (net.outputsOf t) ++ "\n"]

def namesOf (net : Net) (numbers : List Nat) : List String := numbers.map fun t => net.transitions[t]?.getD ""

def priorityTexts (net : Net) (lower : List Nat) (t : Nat) : List String :=
  if lower.isEmpty then []
  else ["pr " ++ net.transitions[t]?.getD "" ++ " > " ++ " ".intercalate (net.namesOf lower) ++ "\n"]

theorem headPieces_exact (net : Net) : net.headPieces = net.headTexts.map .ok := rfl

theorem fetch_default (table : Array α) (index : Nat) (other : α) (inside : index < table.size) :
    fetch table index = .ok (table[index]?.getD other) := by
  rw [fetch_inside _ _ inside,Array.getElem?_eq_getElem inside]
  rfl

theorem labelText_exact (labels : Array String) (index : Nat) (inside : index < labels.size) :
    labelText labels index = .ok (labelled (labels[index]?.getD "")) := by
  unfold labelText
  rw [fetch_default _ _ "" inside]
  rfl

theorem placePieces_exact (sound : net.Sound) (name : String) (known : p < net.places.size) :
    net.placePieces name p = (net.placeTexts name p).map .ok := by
  unfold placePieces placeTexts
  rw [labelText_exact _ _ (sound.placeLabels ▸ known)]
  rfl

theorem timeText_exact (sound : net.Sound) (inside : t < net.transitions.size) :
    net.timeText t = .ok (timed (net.time[t]?.getD .unconstrained)) := by
  unfold timeText
  rw [fetch_default _ _ .unconstrained (sound.tabled.time ▸ inside)]
  rfl

theorem transitionPieces_start (sound : net.Sound) (name : String) (inside : t < net.transitions.size) :
    net.transitionPieces name t = [.ok ("tr " ++ name),.ok (labelled (net.transitionLabels[t]?.getD "")),
      .ok (timed (net.time[t]?.getD .unconstrained)),net.arcsText t] := by
  unfold transitionPieces
  rw [labelText_exact _ _ (sound.tabled.transitionLabels ▸ inside),timeText_exact sound inside]

theorem transitionPieces_exact (sound : net.Sound) (name : String) (inside : t < net.transitions.size)
    (fits : ∀ p, (net.row t).produced p < wordLimit) :
    net.transitionPieces name t = (net.transitionTexts name t).map .ok := by
  rw [transitionPieces_start sound name inside]
  unfold transitionTexts arcsText
  rw [arcLists_ok sound inside fits]
  rfl

theorem priorityPieces_exact (sound : net.Sound) (lower : List Nat) (found : net.prio[t]? = some lower) :
    net.priorityPieces lower t = (net.priorityTexts lower t).map .ok := by
  have inside : t < net.transitions.size := by
    rw [← sound.tabled.prio]
    exact (Array.getElem?_eq_some_iff.mp found).1
  have each : ∀ u ∈ lower, fetch net.transitions u = .ok (net.transitions[u]?.getD "") := by
    intro u member
    have row := sound.inTable lower (Array.mem_toList_iff.mpr (Array.mem_of_getElem? found)) u member
    exact fetch_default _ _ _ (sound.tabled.prio ▸ row)
  unfold priorityPieces priorityTexts
  split
  · rfl
  · rw [fetch_default _ _ "" inside,ok_bind,mapM_exact _ _ _ each]
    rfl

def eachRow (rows : Array α) (parts : α → Nat → List β) : List β :=
  rows.toList.zipIdx.flatMap fun (row,index) => parts row index

theorem eachPiece_exact (rows : Array α) (pieces : α → Nat → List Piece) (texts : α → Nat → List String)
    (each : ∀ index row, rows[index]? = some row → pieces row index = (texts row index).map .ok) :
    eachPiece rows pieces = (eachRow rows texts).map .ok := by
  unfold eachPiece eachRow
  rw [List.map_flatMap]
  refine List.flatMap_congr fun entry member => ?_
  have found := List.mem_zipIdx_iff_getElem?.mp member
  rw [Array.getElem?_toList] at found
  exact each entry.2 entry.1 found

theorem eachPiece_member (rows : Array α) (pieces : α → Nat → List Piece) (piece : Piece) :
    piece ∈ eachPiece rows pieces ↔ ∃ index row, rows[index]? = some row ∧ piece ∈ pieces row index := by
  unfold eachPiece
  rw [List.mem_flatMap]
  constructor
  · rintro ⟨entry,member,among⟩
    have found := List.mem_zipIdx_iff_getElem?.mp member
    rw [Array.getElem?_toList] at found
    exact ⟨entry.2,entry.1,found,among⟩
  · rintro ⟨index,row,found,among⟩
    rw [← Array.getElem?_toList] at found
    exact ⟨(row,index),List.mem_zipIdx_iff_getElem?.mpr found,among⟩

def texts (net : Net) : List String :=
  net.headTexts ++ eachRow net.places net.placeTexts ++ eachRow net.transitions net.transitionTexts ++
    eachRow net.prio net.priorityTexts

theorem pieces_exact (sound : net.Sound) (fits : ∀ t p, (net.row t).produced p < wordLimit) :
    net.pieces = net.texts.map .ok := by
  unfold pieces texts
  rw [headPieces_exact,List.map_append,List.map_append,List.map_append]
  congr 1
  · congr 1
    · congr 1
      refine eachPiece_exact _ _ _ fun p name found => ?_
      exact placePieces_exact sound name (Array.getElem?_eq_some_iff.mp found).1
    · refine eachPiece_exact _ _ _ fun t name found => ?_
      exact transitionPieces_exact sound name (Array.getElem?_eq_some_iff.mp found).1 (fits t)
  · exact eachPiece_exact _ _ _ fun t lower found => priorityPieces_exact sound lower found

theorem written_texts (texts : List String) : written (texts.map .ok) = ⟨String.join texts,none⟩ := by
  induction texts with
  | nil => rfl
  | cons text rest ih =>
    rw [List.map_cons,written,ih,String.join_cons]

theorem render_exact (sound : net.Sound) (fits : ∀ t p, (net.row t).produced p < wordLimit) :
    net.render = ⟨String.join net.texts,none⟩ := by
  unfold render
  rw [pieces_exact sound fits,written_texts]

theorem texts_fault (texts : List String) (fault : Fault) : Except.error fault ∉ texts.map Except.ok := by
  intro member
  obtain ⟨text,_,same⟩ := List.mem_map.mp member
  cases same

theorem arcsText_overflow (sound : net.Sound) (inside : t < net.transitions.size) (p : Nat)
    (exceeds : wordLimit ≤ (net.row t).produced p) : net.arcsText t = .error (.overflow .add) := by
  unfold arcsText
  rw [arcLists_overflow sound inside p exceeds]
  rfl

theorem transitionPieces_fault (sound : net.Sound) (name : String) (inside : t < net.transitions.size) (fault : Fault)
    (member : .error fault ∈ net.transitionPieces name t) : fault = .overflow .add := by
  by_cases fits : ∀ p, (net.row t).produced p < wordLimit
  · rw [transitionPieces_exact sound name inside fits] at member
    exact absurd member (texts_fault _ fault)
  · obtain ⟨p,exceeds⟩ := Classical.not_forall.mp fits
    rw [transitionPieces_start sound name inside,arcsText_overflow sound inside p (by omega)] at member
    simpa using member

theorem pieces_fault (sound : net.Sound) (fault : Fault) (member : .error fault ∈ net.pieces) :
    fault = .overflow .add := by
  unfold pieces at member
  simp only [List.mem_append,eachPiece_member] at member
  rcases member with ((head | ⟨p,name,found,place⟩) | ⟨t,name,found,transition⟩) | ⟨t,lower,found,priority⟩
  · rw [headPieces_exact] at head
    exact absurd head (texts_fault _ fault)
  · rw [placePieces_exact sound name (Array.getElem?_eq_some_iff.mp found).1] at place
    exact absurd place (texts_fault _ fault)
  · exact transitionPieces_fault sound name (Array.getElem?_eq_some_iff.mp found).1 fault transition
  · rw [priorityPieces_exact sound lower found] at priority
    exact absurd priority (texts_fault _ fault)

theorem render_overflow (sound : net.Sound) (t p : Nat) (exceeds : wordLimit ≤ (net.row t).produced p) :
    net.render.fault = some (.overflow .add) := by
  have inside : t < net.transitions.size := by
    apply Classical.byContradiction
    intro outside
    rw [row_outside sound.tabled outside] at exceeds
    simp [Row.produced,Row.empty,wordLimit] at exceeds
  have failing : .error (.overflow .add) ∈ net.pieces := by
    unfold pieces
    simp only [List.mem_append,eachPiece_member]
    refine .inl (.inr ⟨t,net.transitions[t],Array.getElem?_eq_getElem inside,?_⟩)
    rw [transitionPieces_start sound _ inside,arcsText_overflow sound inside p exceeds]
    simp
  cases found : net.render.fault with
  | none =>
    obtain ⟨text,same⟩ := written_complete _ found _ failing
    cases same
  | some fault => rw [pieces_fault sound fault (written_fault _ _ found)]

theorem render_complete (sound : net.Sound) :
    net.render.fault = none ∧ (∀ t p, (net.row t).produced p < wordLimit) ∨
      net.render.fault = some (.overflow .add) ∧ ∃ t p, wordLimit ≤ (net.row t).produced p := by
  by_cases exceeds : ∃ t p, wordLimit ≤ (net.row t).produced p
  · obtain ⟨t,p,more⟩ := exceeds
    exact .inr ⟨render_overflow sound t p more,t,p,more⟩
  · have fits : ∀ t p, (net.row t).produced p < wordLimit := by
      intro t p
      apply Int.not_le.mp
      exact fun more => exceeds ⟨t,p,more⟩
    exact .inl ⟨by rw [render_exact sound fits],fits⟩

end Net

end TimePetri
