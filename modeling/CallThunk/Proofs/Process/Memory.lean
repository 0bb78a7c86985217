import Mathlib.Data.List.Nodup
import Mathlib.Data.List.Pairwise
import CallThunk.Process.Memory
import CallThunk.Proofs.Record.Placement

/-!
# Lemmas about memory

What an access does when it succeeds and what it leaves alone. Allocation takes addresses above all
that were handed out before, so memory that was in use is never touched by it, not even memory that
was freed in between.
-/

namespace CallThunk

/-! ## Bytes -/

namespace Contents

variable {c c' : Contents} {a b x : UInt64} {n : Nat} {bytes : List UInt8}

@[simp] theorem length_read (c : Contents) (a : UInt64) (n : Nat) : (c.read a n).length = n := by
  simp [read]

/-- The addresses of a range that does not wrap. -/
theorem toNat_add {i : Nat} (fits : a.toNat + i < 2 ^ 64) :
    (a + UInt64.ofNat i).toNat = a.toNat + i := by
  rw [UInt64.toNat_add, UInt64.toNat_ofNat', Nat.mod_eq_of_lt (by omega : i < 2 ^ 64),
    Nat.mod_eq_of_lt fits]

/-- Memories that agree on a range hold the same bytes there. -/
theorem read_congr (fits : a.toNat + n ≤ 2 ^ 64)
    (same : ∀ x : UInt64, a.toNat ≤ x.toNat → x.toNat < a.toNat + n → c' x = c x) :
    c'.read a n = c.read a n := by
  unfold read
  refine List.map_congr_left fun i hi => ?_
  have inside := List.mem_range.mp hi
  have exact := @toNat_add a i (by omega)
  exact same _ (by omega) (by omega)

/-- A byte behind an address is as far away as the numbers say. -/
theorem toNat_sub_of_le (h : a.toNat ≤ x.toNat) : (x - a).toNat = x.toNat - a.toNat :=
  UInt64.toNat_sub_of_le _ _ (UInt64.le_iff_toNat_le.mpr h)

/-- A byte in front of an address is reached by wrapping. -/
theorem toNat_sub_of_lt (h : x.toNat < a.toNat) :
    (x - a).toNat = 2 ^ 64 + x.toNat - a.toNat := by
  have bound := a.toNat_lt
  rw [UInt64.toNat_sub]
  omega

/-- A byte outside of the written range stays. -/
theorem write_of_outside (fits : a.toNat + bytes.length ≤ 2 ^ 64)
    (outside : x.toNat < a.toNat ∨ a.toNat + bytes.length ≤ x.toNat) :
    c.write a bytes x = c x := by
  have beyond : bytes.length ≤ (x - a).toNat := by
    rcases outside with before | behind
    · rw [toNat_sub_of_lt before]
      omega
    · rw [toNat_sub_of_le (by omega)]
      omega
  rw [write, List.getElem?_eq_none beyond]
  rfl

/-- The bytes written are read back. -/
theorem read_write (fits : bytes.length ≤ 2 ^ 64) :
    (c.write a bytes).read a bytes.length = bytes := by
  refine List.ext_getElem (length_read ..) fun i _ hi => ?_
  have back : a + UInt64.ofNat i - a = UInt64.ofNat i := by
    rw [UInt64.add_comm, UInt64.add_sub_cancel]
  have exact : (UInt64.ofNat i).toNat = i := by
    rw [UInt64.toNat_ofNat', Nat.mod_eq_of_lt (by omega)]
  simp only [read, write, List.getElem_map, List.getElem_range]
  rw [back, exact, List.getElem?_eq_getElem hi]
  rfl

end Contents

/-! ## Regions -/

namespace Region

theorem covers_iff {r : Region} {a : UInt64} {n : Nat} :
    r.covers a n ↔ r.start.toNat ≤ a.toNat ∧ a.toNat + n ≤ r.start.toNat + r.size := by
  simp [covers, UInt64.le_iff_toNat_le]

/-- One region lies above another one, with at least one byte between them. -/
def Above (new old : Region) : Prop := old.start.toNat + old.size < new.start.toNat

/-- Of two different regions in a rising list, one lies above the other. -/
theorem above_or_above {regions : List Region} (rising : regions.Pairwise Above) {r r' : Region}
    (hr : r ∈ regions) (hr' : r' ∈ regions) (other : r ≠ r') : r'.Above r ∨ r.Above r' := by
  have : Std.Symm fun a b : Region => b.Above a ∨ a.Above b := ⟨fun _ _ => Or.symm⟩
  have apart : regions.Pairwise fun a b => b.Above a ∨ a.Above b := rising.imp Or.inr
  exact apart.forall hr hr' other

end Region

namespace Memory

variable {m m' : Memory} {a x : UInt64} {n : Nat} {bytes : List UInt8} {size align : UInt64}

theorem region?_isSome : (m.region? a n).isSome ↔ ∃ r ∈ m.live, r.covers a n := by
  unfold region?
  exact List.find?_isSome

/-- What lies inside a mapped range is mapped. -/
theorem mapped_within {b : UInt64} {k : Nat} (mapped : (m.region? a n).isSome)
    (first : a.toNat ≤ b.toNat) (last : b.toNat + k ≤ a.toNat + n) : (m.region? b k).isSome := by
  obtain ⟨region, live, covers⟩ := region?_isSome.mp mapped
  have whole := Region.covers_iff.mp covers
  exact region?_isSome.mpr ⟨region, live, Region.covers_iff.mpr ⟨by omega, by omega⟩⟩

/-- Live regions end before the address at which the next one may start. -/
def Bounded (m : Memory) : Prop := ∀ r ∈ m.live, r.start.toNat + r.size < m.next.toNat

theorem bounded_ofBase (base : UInt64) : (ofBase base).Bounded := nofun

/-- An accessible range lies below the next region. -/
theorem Bounded.below (h : m.Bounded) (accessible : (m.region? a n).isSome) :
    a.toNat + n < m.next.toNat := by
  obtain ⟨r, hr, covers⟩ := region?_isSome.mp accessible
  have bound := h r hr
  have inside := (Region.covers_iff.mp covers).2
  omega

/-! ## Operations that succeed -/

/-- What it means to have handed out a new region: it lies above all that was in use, and below it
every byte is as before. -/
structure Allocated (m : Memory) (size : Nat) (a : UInt64) (m' : Memory) : Prop where
  above : m.next.toNat ≤ a.toNat
  below : a.toNat + size < m'.next.toNat
  live : m'.live = ⟨a, size⟩ :: m.live
  contents : ∀ x : UInt64, x.toNat < m.next.toNat → m'.contents x = m.contents x

/-- An allocation that succeeds gives a new region of its size. -/
theorem allocated_of_allocate? (h : m.allocate? size align = some (a, m')) :
    m.Allocated size.toNat a m' := by
  unfold allocate? at h
  dsimp only at h
  split at h
  next accepted =>
    cases h
    have start := le_alignUp m.next.toNat (max align.toNat 1)
    have room : alignUp m.next.toNat (max align.toNat 1) + max size.toNat 1 + 1 < UInt64.size := by
      simpa using (Bool.and_eq_true_iff.mp accepted).2
    have exact : (UInt64.ofNat (alignUp m.next.toNat (max align.toNat 1))).toNat =
        alignUp m.next.toNat (max align.toNat 1) := by
      rw [UInt64.toNat_ofNat', Nat.mod_eq_of_lt (by unfold UInt64.size at room; omega)]
    have next : (UInt64.ofNat
        (alignUp m.next.toNat (max align.toNat 1) + max size.toNat 1 + 1)).toNat =
        alignUp m.next.toNat (max align.toNat 1) + max size.toNat 1 + 1 := by
      rw [UInt64.toNat_ofNat', Nat.mod_eq_of_lt (by unfold UInt64.size at room; omega)]
    refine ⟨by rw [exact]; exact start, by rw [exact, next]; omega, rfl, fun x hx => ?_⟩
    -- a byte in front of the region is not zeroed, because its distance wraps
    refine if_neg ?_
    have bound := size.toNat_lt
    unfold UInt64.size at room
    rw [Contents.toNat_sub_of_lt (by rw [exact]; omega), exact]
    omega
  next => cases h

/-- An allocation starts at a multiple of its alignment. -/
theorem dvd_of_allocate? (h : m.allocate? size align = some (a, m')) :
    max align.toNat 1 ∣ a.toNat := by
  unfold allocate? at h
  dsimp only at h
  split at h
  next accepted =>
    cases h
    have room : alignUp m.next.toNat (max align.toNat 1) + max size.toNat 1 + 1 < UInt64.size := by
      simpa using (Bool.and_eq_true_iff.mp accepted).2
    rw [UInt64.toNat_ofNat', Nat.mod_eq_of_lt (by unfold UInt64.size at room; omega)]
    have aligned := dvd_alignUp m.next.toNat (max align.toNat 1)
    rwa [Nat.max_eq_left (Nat.le_max_right ..)] at aligned
  next => cases h

/-- What is handed out depends on the next address alone. -/
theorem allocate?_of_next (same : m.next = m'.next) :
    (m.allocate? size align = none ∧ m'.allocate? size align = none) ∨
      ∃ a n n', m.allocate? size align = some (a, n) ∧ m'.allocate? size align = some (a, n') ∧
        n.next = n'.next := by
  unfold allocate?
  rw [same]
  dsimp only
  split
  · exact .inr ⟨_, _, _, rfl, rfl, rfl⟩
  · exact .inl ⟨rfl, rfl⟩

theorem Allocated.bounded (h : m.Allocated n a m') (bounded : m.Bounded) : m'.Bounded := by
  intro r hr
  rw [h.live] at hr
  rcases List.mem_cons.mp hr with rfl | old
  · exact h.below
  · have bound := bounded r old
    have above := h.above
    have below := h.below
    omega

theorem write?_eq_some : m.write? a bytes = some m' ↔
    (m.region? a bytes.length).isSome ∧ m' = { m with contents := m.contents.write a bytes } := by
  unfold write?
  split
  next accessible => simp [accessible, eq_comm]
  next inaccessible => simp [inaccessible]

theorem read?_eq_some : m.read? a n = some bytes ↔
    (m.region? a n).isSome ∧ bytes = m.contents.read a n := by
  unfold read?
  split
  next accessible => simp [accessible, eq_comm]
  next inaccessible => simp [inaccessible]

theorem bounded_of_free? (h : m.free? a = some m') (bounded : m.Bounded) :
    m'.Bounded ∧ m'.next = m.next ∧ m'.contents = m.contents := by
  unfold free? at h
  split at h
  next region found =>
    cases h
    exact ⟨fun r hr => bounded r (List.mem_filter.mp hr).1, rfl, rfl⟩
  next => cases h

/-! ## Live regions -/

/-- The starts of live regions, the newest first. -/
def starts (m : Memory) : List UInt64 := m.live.map Region.start

/-- Live regions lie apart from each other, newer ones above older ones, and below the next one. -/
structure Tidy (m : Memory) : Prop where
  bounded : m.Bounded
  apart : m.live.Pairwise fun new old => old.start.toNat + old.size < new.start.toNat

theorem tidy_ofBase (base : UInt64) : (ofBase base).Tidy := ⟨bounded_ofBase base, .nil⟩

theorem mem_starts : a ∈ m.starts ↔ ∃ r ∈ m.live, r.start = a := List.mem_map

/-- Every live region has a start of its own. -/
theorem Tidy.nodup (h : m.Tidy) : m.starts.Nodup := by
  refine List.pairwise_map.mpr (h.apart.imp fun {new old} below same => ?_)
  rw [same] at below
  omega

theorem Tidy.count_le_one (h : m.Tidy) (a : UInt64) : m.starts.count a ≤ 1 :=
  List.nodup_iff_count_le_one.mp h.nodup a

theorem Tidy.lt_next (h : m.Tidy) (live : a ∈ m.starts) : a.toNat < m.next.toNat := by
  obtain ⟨r, hr, rfl⟩ := mem_starts.mp live
  have bound := h.bounded r hr
  omega

/-- Different regions leave a gap between them. -/
theorem Tidy.disjoint (h : m.Tidy) {r r' : Region} (hr : r ∈ m.live) (hr' : r' ∈ m.live)
    (other : r ≠ r') :
    r.start.toNat + r.size < r'.start.toNat ∨ r'.start.toNat + r'.size < r.start.toNat :=
  Region.above_or_above h.apart hr hr' other

theorem Allocated.tidy (h : m.Allocated n a m') (tidy : m.Tidy) : m'.Tidy where
  bounded := h.bounded tidy.bounded
  apart := by
    rw [h.live]
    refine List.pairwise_cons.mpr ⟨fun old hold => ?_, tidy.apart⟩
    have bound := tidy.bounded old hold
    have above := h.above
    dsimp only
    omega

theorem Allocated.starts_eq (h : m.Allocated n a m') : m'.starts = a :: m.starts := by
  unfold starts
  rw [h.live]
  rfl

theorem free?_eq_some (h : m.free? a = some m') :
    a ∈ m.starts ∧ m'.live = m.live.filter (·.start ≠ a) ∧ m'.next = m.next ∧
      m'.contents = m.contents := by
  unfold free? at h
  split at h
  next region found =>
    cases h
    refine ⟨mem_starts.mpr ⟨region, List.mem_of_find?_eq_some found, ?_⟩, rfl, rfl, rfl⟩
    have start := List.find?_some found
    exact of_decide_eq_true start
  next => cases h

theorem not_mem_of_free? (h : m.free? a = some m') : a ∉ m'.starts := by
  obtain ⟨-, live, -, -⟩ := free?_eq_some h
  intro member
  obtain ⟨r, hr, start⟩ := mem_starts.mp member
  rw [live] at hr
  exact of_decide_eq_true (List.mem_filter.mp hr).2 start

theorem mem_of_free? {x : UInt64} (h : m.free? a = some m') (member : x ∈ m'.starts) :
    x ∈ m.starts := by
  obtain ⟨-, live, -, -⟩ := free?_eq_some h
  obtain ⟨r, hr, start⟩ := mem_starts.mp member
  rw [live] at hr
  exact mem_starts.mpr ⟨r, (List.mem_filter.mp hr).1, start⟩

theorem free?_isSome (live : a ∈ m.starts) : ∃ m', m.free? a = some m' := by
  unfold free?
  split
  next => exact ⟨_, rfl⟩
  next absent =>
    obtain ⟨r, hr, start⟩ := mem_starts.mp live
    exact absurd (decide_eq_true start) (List.find?_eq_none.mp absent r hr)

theorem Tidy.free? (tidy : m.Tidy) (h : m.free? a = some m') : m'.Tidy := by
  obtain ⟨-, live, next, -⟩ := free?_eq_some h
  refine ⟨fun r hr => ?_, ?_⟩
  · rw [live] at hr
    rw [next]
    exact tidy.bounded r (List.mem_filter.mp hr).1
  · rw [live]
    exact tidy.apart.filter _

/-- What is freed is no longer live, and all else stays live. -/
theorem Tidy.count_free? (tidy : m.Tidy) (h : m.free? a = some m') (x : UInt64) :
    m.starts.count x = m'.starts.count x + [a].count x := by
  obtain ⟨freed, live, -, -⟩ := free?_eq_some h
  have left : m'.starts = m.starts.filter (· ≠ a) := by
    unfold starts
    rw [live, List.filter_map]
    rfl
  rw [left]
  by_cases same : x = a
  · subst same
    have whole := tidy.count_le_one x
    have once := List.count_pos_iff.mpr freed
    have gone : (m.starts.filter (· ≠ x)).count x = 0 :=
      List.count_eq_zero_of_not_mem fun member => by simpa using (List.mem_filter.mp member).2
    rw [gone, List.count_singleton_self]
    omega
  · have other : [a].count x = 0 := List.count_eq_zero_of_not_mem (by simpa using same)
    rw [List.count_filter (by simpa using same), other]
    rfl

/-! ## Ranges in one piece -/

/-- A live region that meets a range of bytes holds all of it. -/
structure Whole (m : Memory) (a : UInt64) (n : Nat) : Prop where
  inside : a.toNat + n ≤ m.next.toNat
  covers : ∀ region ∈ m.live, region.start.toNat < a.toNat + n →
    a.toNat < region.start.toNat + region.size → region.covers a n

theorem Tidy.whole (tidy : m.Tidy) (held : (m.region? a n).isSome) : m.Whole a n where
  inside := Nat.le_of_lt (tidy.bounded.below held)
  covers := by
    intro region member first last
    obtain ⟨holder, live, covers⟩ := region?_isSome.mp held
    by_cases same : holder = region
    · rw [← same]
      exact covers
    · have apart := tidy.disjoint live member same
      have whole := Region.covers_iff.mp covers
      omega

theorem Allocated.whole {k : Nat} (h : m.Allocated k a m') (bounded : m.Bounded) (room : n ≤ k) :
    m'.Whole a n where
  inside := by
    have below := h.below
    omega
  covers := by
    intro region member first last
    rw [h.live] at member
    rcases List.mem_cons.mp member with rfl | old
    · exact Region.covers_iff.mpr ⟨Nat.le_refl _, Nat.add_le_add_left room _⟩
    · have below := bounded region old
      have above := h.above
      omega

/-- So the range is mapped if any part of it is. -/
theorem Whole.mapped {b : UInt64} {k : Nat} (h : m.Whole a n) (held : (m.region? b k).isSome)
    (some : 0 < k) (first : a.toNat ≤ b.toNat) (last : b.toNat + k ≤ a.toNat + n) :
    (m.region? a n).isSome := by
  obtain ⟨region, live, covers⟩ := region?_isSome.mp held
  have part := Region.covers_iff.mp covers
  exact region?_isSome.mpr ⟨region, live, h.covers region live (by omega) (by omega)⟩

end Memory

end CallThunk
