import FoosballTable.Interface.Table
import FoosballTable.Library.Arrays
import FoosballTable.Tracker.Publication

/-!
# The break list between the tracker and the user interface

The tracker publishes a list of lasers with a `-1` after it; `Agrees` says that the table then
reads this list and nothing else. The copy of the table takes only half of the bytes of the array,
so that the list arrives whatever the table held before exactly when it has room in the first
half: `agrees_always_iff`.
-/

namespace FoosballTable.Interface

open Library Traced

/-- Reads of consecutive entries. -/
def readsFrom : Nat → List Int → List Read
  | _, [] => []
  | index, value :: values => ⟨index, some value⟩ :: readsFrom (index + 1) values

/-- The scan visits exactly the entries of the list in order, draws each of them, and stops at
the `-1` after them. -/
def Agrees (rect : Int → Rect) (entries : List (BitVec 32)) (index : Nat)
    (ids : List (BitVec 32)) : Prop :=
  (breakLoop rect entries index).trace = readsFrom index (ids.map BitVec.toInt ++ [-1]) ∧
    (breakLoop rect entries index).value = some (ids.map fun id => rect id.toInt)

/-! ## The scan -/

/-- The terminator as an `int` in memory. -/
theorem to_int_eq_neg_one (word : BitVec 32) : word.toInt = -1 ↔ word = -1 := by
  rw [← BitVec.toInt_inj]
  rfl

/-- The scan of an array that begins with a break. -/
theorem break_loop_cons (rect : Int → Rect) {entry : BitVec 32} (hentry : entry ≠ -1)
    (entries : List (BitVec 32)) (index : Nat) :
    breakLoop rect (entry :: entries) index =
      ⟨⟨index, some entry.toInt⟩ :: (breakLoop rect entries (index + 1)).trace,
        (breakLoop rect entries (index + 1)).value.map (rect entry.toInt :: ·)⟩ := by
  have hint : entry.toInt ≠ -1 := fun h => hentry ((to_int_eq_neg_one entry).mp h)
  rw [breakLoop]
  show andThen (access _ entry.toInt) _ = _
  simp only [andThen, access, if_pos hint]
  show Traced.mk ([_] ++ (andThen _ _).trace) (andThen _ _).value = _
  cases hrest : (breakLoop rect entries (index + 1)).value with
  | none => simp [andThen, hrest]
  | some rects => simp [andThen, hrest, pure]

/-- The scan of an array that begins with the terminator. -/
theorem break_loop_stop (rect : Int → Rect) (entries : List (BitVec 32)) (index : Nat) :
    breakLoop rect (-1 :: entries) index = ⟨[⟨index, some (-1)⟩], some []⟩ := rfl

/-- From an array that begins with the terminator the table reads no break. -/
theorem agrees_stop_iff (rect : Int → Rect) (entries : List (BitVec 32)) (index : Nat)
    (ids : List (BitVec 32)) : Agrees rect (-1 :: entries) index ids ↔ ids = [] := by
  unfold Agrees
  rw [break_loop_stop]
  cases ids with
  | nil => exact iff_of_true ⟨rfl, rfl⟩ rfl
  | cons id ids =>
      refine iff_of_false ?_ (List.cons_ne_nil id ids)
      intro h
      have hvalue := h.2
      cases hvalue

/-- From an array that begins with a break the table reads one. -/
theorem not_agrees_nil (rect : Int → Rect) {entry : BitVec 32} (hentry : entry ≠ -1)
    (entries : List (BitVec 32)) (index : Nat) : ¬ Agrees rect (entry :: entries) index [] := by
  intro h
  have htrace := h.1
  rw [break_loop_cons rect hentry] at htrace
  simp only [List.map_nil, List.nil_append, readsFrom, List.cons.injEq, Read.mk.injEq,
    Option.some.injEq, true_and] at htrace
  exact hentry ((to_int_eq_neg_one entry).mp htrace.1)

/-- The first break that the table reads is the first entry, and the others are read from the
rest. -/
theorem agrees_cons_iff (rect : Int → Rect) {entry : BitVec 32} (hentry : entry ≠ -1)
    (entries : List (BitVec 32)) (index : Nat) (id : BitVec 32) (ids : List (BitVec 32)) :
    Agrees rect (entry :: entries) index (id :: ids) ↔
      id = entry ∧ Agrees rect entries (index + 1) ids := by
  unfold Agrees
  rw [break_loop_cons rect hentry]
  simp only [List.map_cons, List.cons_append, readsFrom, List.cons.injEq, Read.mk.injEq,
    Option.some.injEq, true_and, BitVec.toInt_inj]
  constructor
  · intro hread
    obtain ⟨⟨rfl, htrace⟩, hvalue⟩ := hread
    refine ⟨rfl, htrace, ?_⟩
    obtain ⟨rects, hrects, hcons⟩ := Option.map_eq_some_iff.mp hvalue
    rw [hrects, List.tail_eq_of_cons_eq hcons]
  · intro hread
    obtain ⟨rfl, htrace, hvalue⟩ := hread
    exact ⟨⟨rfl, htrace⟩, by rw [hvalue]; rfl⟩

/-- The table reads a list of breaks exactly when its array holds it with a `-1` after it. -/
theorem agrees_iff_prefix_holds (rect : Int → Rect) (entries : List (BitVec 32)) (index : Nat)
    {ids : List (BitVec 32)} (hids : -1 ∉ ids) :
    Agrees rect entries index ids ↔ ids ++ [-1] <+: entries := by
  induction entries generalizing index ids with
  | nil =>
      refine iff_of_false ?_ ?_
      · intro h
        have hvalue := h.2
        cases hvalue
      · intro h
        simp at h
  | cons entry entries ih =>
      by_cases hentry : entry = -1
      · rw [hentry, agrees_stop_iff]
        cases ids with
        | nil => exact iff_of_true rfl (by simp)
        | cons id ids =>
            refine iff_of_false (List.cons_ne_nil id ids) ?_
            intro h
            obtain ⟨hid, -⟩ := List.cons_prefix_cons.mp h
            exact hids (hid ▸ List.mem_cons_self)
      · cases ids with
        | nil =>
            refine iff_of_false (not_agrees_nil rect hentry entries index) ?_
            intro h
            obtain ⟨hid, -⟩ := List.cons_prefix_cons.mp h
            exact hentry hid.symm
        | cons id ids =>
            have hrest := ih (index + 1) fun h => hids (List.mem_cons_of_mem id h)
            rw [agrees_cons_iff rect hentry, hrest, List.cons_append, List.cons_prefix_cons]

/-! ## The copy -/

section Copy

variable {lasers : Nat} {previous shared : Vector (BitVec 32) (lasers + 1)}
  {ids : List (BitVec 32)}

/-- The entries after the copy. -/
theorem get_copy_breaks (previous shared : Vector (BitVec 32) (lasers + 1)) {index : Nat}
    (h : index < lasers + 1) :
    (copyBreaks previous shared)[index] =
      blend (2 * (lasers + 1) - 4 * index) previous[index] shared[index] := by
  have hcopy := get_array_words_memcpy (2 * (lasers + 1))
    (show previous.toList.length = shared.toList.length by simp) (by simpa using h)
    (by simpa using h)
  have hentry : (copyBreaks previous shared)[index]? =
      some (blend (2 * (lasers + 1) - 4 * index) previous[index] shared[index]) := by
    simpa [copyBreaks, sizeofCoord] using hcopy
  rw [Vector.getElem?_eq_getElem h] at hentry
  exact Option.some.inj hentry

/-- An entry arrives: its bytes are among those copied, or half of them are and the other half
was there before, or all of them were. -/
def Arrives (previous shared : Vector (BitVec 32) (lasers + 1)) (index : Nat)
    (h : index < lasers + 1) : Prop :=
  2 * (index + 1) ≤ lasers + 1 ∨
    2 * index = lasers ∧ upperHalf previous[index] = upperHalf shared[index] ∨
    previous[index] = shared[index]

instance (previous shared : Vector (BitVec 32) (lasers + 1)) (index : Nat)
    (h : index < lasers + 1) : Decidable (Arrives previous shared index h) :=
  inferInstanceAs (Decidable (_ ∨ _))

/-- The copy leaves the published entry exactly when it arrives. -/
theorem copy_breaks_eq_iff {index : Nat} (h : index < lasers + 1) :
    (copyBreaks previous shared)[index] = shared[index] ↔ Arrives previous shared index h := by
  rw [get_copy_breaks]
  unfold Arrives
  -- all four bytes of the entry are copied, or two of them, or none
  by_cases hfull : 2 * (index + 1) ≤ lasers + 1
  · have hcount : 4 ≤ 2 * (lasers + 1) - 4 * index := by omega
    obtain ⟨more, hmore⟩ := Nat.exists_eq_add_of_le' hcount
    rw [hmore]
    exact iff_of_true rfl (Or.inl hfull)
  · by_cases hhalf : 2 * index = lasers
    · have hcount : 2 * (lasers + 1) - 4 * index = 2 := by omega
      rw [hcount, blend_half]
      constructor
      · exact fun hupper => Or.inr (Or.inl ⟨hhalf, hupper⟩)
      · intro harrives
        rcases harrives with hcontra | ⟨-, hupper⟩ | hsame
        · exact absurd hcontra hfull
        · exact hupper
        · rw [hsame]
    · have hcount : 2 * (lasers + 1) - 4 * index = 0 := by omega
      rw [hcount]
      simp only [hfull, hhalf, false_and, false_or]
      exact Iff.rfl

/-- The table reads the published list exactly when each entry of it and its terminator arrives. -/
theorem agrees_iff_arrives (rect : Int → Rect) (hids : -1 ∉ ids)
    (hshared : Terminated (-1) shared ids) :
    Agrees rect (copyBreaks previous shared).toList 0 ids ↔
      ∀ index (h : index < lasers + 1), index ≤ ids.length → Arrives previous shared index h := by
  rw [agrees_iff_prefix_holds rect _ _ hids, List.prefix_iff_getElem?]
  have hpublished := List.prefix_iff_getElem?.mp hshared
  have hcount : (ids ++ [-1]).length = ids.length + 1 := by
    rw [List.length_append, List.length_singleton]
  have hroom := hshared.length_lt
  constructor
  · intro hcopied index hindex hle
    have hentry := (hcopied index (by omega)).trans (hpublished index (by omega)).symm
    rw [← copy_breaks_eq_iff]
    simpa [hindex] using hentry
  · intro harrives index hindex
    have hentry := (copy_breaks_eq_iff (by omega)).mpr (harrives index (by omega) (by omega))
    have hindex' : index < lasers + 1 := by omega
    rw [← hpublished index hindex]
    simpa [hindex'] using hentry

/-- The list arrives over every previous content of the table's array exactly when it and its
terminator fit in the first half of the published array. -/
theorem agrees_always_iff (rect : Int → Rect) (hids : -1 ∉ ids)
    (hshared : Terminated (-1) shared ids) :
    (∀ previous : Vector (BitVec 32) (lasers + 1),
        Agrees rect (copyBreaks previous shared).toList 0 ids) ↔
      2 * (ids.length + 1) ≤ lasers + 1 := by
  have hroom := hshared.length_lt
  constructor
  · intro hagrees
    -- previous content that differs from the published entry in both of its halves
    have harrives := (agrees_iff_arrives rect hids hshared).mp (hagrees (shared.map (~~~ ·)))
      ids.length (by omega) (Nat.le_refl _)
    have hlt := (shared[ids.length]).isLt
    have hcomplement : (~~~ shared[ids.length]).toNat = 2 ^ 32 - 1 - (shared[ids.length]).toNat :=
      BitVec.toNat_not
    rcases harrives with hfull | ⟨-, hupper⟩ | hsame
    · exact hfull
    · rw [Vector.getElem_map, upperHalf, upperHalf, hcomplement] at hupper
      omega
    · rw [Vector.getElem_map] at hsame
      rw [hsame] at hcomplement
      omega
  · intro hfits previous
    refine (agrees_iff_arrives rect hids hshared).mpr fun index hindex hle => Or.inl ?_
    omega

/-- For every published list of breaks and every previous content of the table's array: the table
reads exactly the list if and only if each entry of the list and its terminator arrives; and that
is so for every previous content if and only if they fit in the first half of the array. -/
theorem table_agrees_iff {lasers : Nat} (rect : Int → Rect)
    (shared : Vector (BitVec 32) (lasers + 1)) (ids : List (BitVec 32))
    (hids : ∀ id ∈ ids, 0 ≤ id.toInt ∧ id.toInt < lasers)
    (hshared : Terminated (-1) shared ids) :
    (∀ previous : Vector (BitVec 32) (lasers + 1),
        Agrees rect (copyBreaks previous shared).toList 0 ids ↔
          ∀ index (h : index < lasers + 1), index ≤ ids.length →
            Arrives previous shared index h) ∧
      ((∀ previous : Vector (BitVec 32) (lasers + 1),
          Agrees rect (copyBreaks previous shared).toList 0 ids) ↔
        2 * (ids.length + 1) ≤ lasers + 1) := by
  have hnot : -1 ∉ ids := by
    intro h
    have hneg := (hids _ h).1
    have hint := (to_int_eq_neg_one (-1)).mpr rfl
    omega
  exact ⟨fun _ => agrees_iff_arrives rect hnot hshared, agrees_always_iff rect hnot hshared⟩

/-- When both lists arrive, a draw reads these lists and nothing else, and draws a rectangle for
each break of the x axis and then for each one of the y axis. -/
theorem draw_of_agrees {xLasers yLasers : Nat} (dim : TableDim)
    {xShared : Vector (BitVec 32) (xLasers + 1)} {yShared : Vector (BitVec 32) (yLasers + 1)}
    {table : Table xLasers yLasers} {xIds yIds : List (BitVec 32)}
    (hx : Agrees (xRect dim) (copyBreaks table.xBreaks xShared).toList 0 xIds)
    (hy : Agrees (yRect dim) (copyBreaks table.yBreaks yShared).toList 0 yIds) :
    (table.draw dim xShared yShared).2 =
      ⟨readsFrom 0 (xIds.map BitVec.toInt ++ [-1]) ++ readsFrom 0 (yIds.map BitVec.toInt ++ [-1]),
        some (xIds.map (fun id => xRect dim id.toInt) ++
          yIds.map fun id => yRect dim id.toInt)⟩ := by
  obtain ⟨hxTrace, hxValue⟩ := hx
  obtain ⟨hyTrace, hyValue⟩ := hy
  show andThen _ (fun xRects => andThen _ fun yRects => pure (xRects ++ yRects)) = _
  simp only [andThen, hxValue, hyValue, hxTrace, hyTrace, pure, List.append_nil]

/-- On an axis of four lasers a list of two breaks is not read: only half of the bytes of its
terminator are copied, so that the scan takes it for another laser. -/
theorem two_breaks_not_read :
    Terminated (-1) (#v[1, 2, -1, 0, 0] : Vector (BitVec 32) 5) [1, 2] ∧
      ¬ Agrees (xRect .default)
        (copyBreaks #v[0, -1, 0, 0, 0] (#v[1, 2, -1, 0, 0] : Vector (BitVec 32) 5)).toList 0
        [1, 2] ∧
      (breakLoop (xRect .default)
          (copyBreaks #v[0, 1, 2, 3, 0] (#v[1, 2, -1, 0, 0] : Vector (BitVec 32) 5)).toList
          0).value = none := by
  unfold Agrees
  decide

/-- A list of one break is read over any previous content. -/
theorem one_break_read :
    Agrees (xRect .default)
      (copyBreaks #v[0, 1, 2, 3, 0] (#v[3, -1, 0, 0, 0] : Vector (BitVec 32) 5)).toList 0 [3] :=
  (table_agrees_iff (xRect .default) (#v[3, -1, 0, 0, 0] : Vector (BitVec 32) 5) [3] (by simp)
    (by decide)).2.mpr (by decide) #v[0, 1, 2, 3, 0]

end Copy

/-! ## The lists of the tracker -/

/-- The shared memory of an axis of the tracker, as words. -/
def sharedWords {lasers : Nat} (axis : Tracker.Axis lasers) : Vector (BitVec 32) (lasers + 1) :=
  axis.shareMem.map (BitVec.ofInt 32)

/-- Lasers as words. -/
def laserWords {lasers : Nat} (ids : List (Fin lasers)) : List (BitVec 32) :=
  ids.map fun t : Fin lasers => BitVec.ofInt 32 t

/-- In every state of the tracker whose shared memory is in order, and on an axis whose lasers
are numbered by `int`s, the table reads the published list over any previous content exactly when
it fits in the first half of the array. -/
theorem tracker_list_read_iff {lasers : Nat} (hint : lasers ≤ 2 ^ 31)
    {axis : Tracker.Axis lasers} (h : axis.InRange) (rect : Int → Rect) :
    ∃ ids : List (Fin lasers), ids.Pairwise (· < ·) ∧
      Terminated (-1) axis.shareMem (Tracker.laserIds ids) ∧
      ((∀ previous : Vector (BitVec 32) (lasers + 1),
          Agrees rect (copyBreaks previous (sharedWords axis)).toList 0 (laserWords ids)) ↔
        2 * (ids.length + 1) ≤ lasers + 1) := by
  obtain ⟨ids, hids, hpublished⟩ := h.shareMem
  refine ⟨ids, hids, hpublished, ?_⟩
  have hwords : Terminated (-1) (sharedWords axis) (laserWords ids) := by
    have hmap := hpublished.map (BitVec.ofInt 32)
    simpa [Terminated, sharedWords, laserWords, Tracker.laserIds, Function.comp_def,
      Vector.toList_map] using hmap
  have hnot : -1 ∉ laserWords ids := by
    intro hmem
    obtain ⟨t, -, ht⟩ := List.mem_map.mp hmem
    have hlt := t.isLt
    have htoInt := congrArg BitVec.toInt ht
    rw [BitVec.toInt_ofInt, Int.bmod_def, (to_int_eq_neg_one (-1)).mpr rfl] at htoInt
    omega
  rw [agrees_always_iff rect hnot hwords, laserWords, List.length_map]

end FoosballTable.Interface
