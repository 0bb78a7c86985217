import CallThunk.Ty.Records

/-!
# Mentioned records

All records that a type mentions, with repetitions. Collecting records keeps one record of every
mentioned name, and no name twice.
-/

namespace CallThunk

mutual
/-- The records that a type mentions, at any depth. -/
def Ty.mentions : Ty → List RecordTy
  | .record r => [r]
  | .pointer pointee => pointee.mentions
  | .function ret params _ => ret.mentions ++ Ty.mentionsAll params
  | .void | .bool | .int _ | .float _ => []
/-- The records that the types of a list mention. -/
def Ty.mentionsAll : List Ty → List RecordTy
  | [] => []
  | t :: ts => t.mentions ++ Ty.mentionsAll ts
end

theorem Ty.mem_mentionsAll {tys : List Ty} {r : RecordTy} :
    r ∈ Ty.mentionsAll tys ↔ ∃ ty ∈ tys, r ∈ ty.mentions := by
  induction tys with
  | nil => simp [Ty.mentionsAll]
  | cons ty tys ih => simp [Ty.mentionsAll, ih]

/-- What collecting some records adds to the ones found before: the ones found stay in front, all
others are among the given ones, every given name is there, and no name comes twice. -/
structure Collects (mentioned found found' : List RecordTy) : Prop where
  keeps : found <+: found'
  only : ∀ r ∈ found', r ∈ found ∨ r ∈ mentioned
  named : ∀ r ∈ mentioned, ∃ r' ∈ found', r'.name = r.name
  distinct : (found.map RecordTy.name).Nodup → (found'.map RecordTy.name).Nodup

namespace Collects

variable {found found' found'' rs rs' : List RecordTy}

theorem nothing : Collects [] found found :=
  ⟨List.prefix_rfl, fun _ h => .inl h, nofun, id⟩

theorem trans (h : Collects rs found found') (h' : Collects rs' found' found'') :
    Collects (rs ++ rs') found found'' where
  keeps := h.keeps.trans h'.keeps
  only r hr := by
    rcases h'.only r hr with hr | hr
    · rcases h.only r hr with hr | hr
      · exact .inl hr
      · exact .inr (List.mem_append_left _ hr)
    · exact .inr (List.mem_append_right _ hr)
  named r hr := by
    rcases List.mem_append.mp hr with hr | hr
    · obtain ⟨r', hr', name⟩ := h.named r hr
      exact ⟨r', h'.keeps.subset hr', name⟩
    · exact h'.named r hr
  distinct hd := h'.distinct (h.distinct hd)

theorem addTo (found : List RecordTy) (r : RecordTy) : Collects [r] found (r.addTo found) := by
  unfold RecordTy.addTo
  by_cases known : found.any (·.name = r.name)
  · rw [if_pos known]
    obtain ⟨old, hold, name⟩ := List.any_eq_true.mp known
    refine ⟨List.prefix_rfl, fun _ h => .inl h, fun r' hr' => ?_, id⟩
    rw [List.mem_singleton.mp hr']
    exact ⟨old, hold, of_decide_eq_true name⟩
  · rw [if_neg known]
    refine ⟨List.prefix_append _ _, fun r' hr' => ?_, fun r' hr' => ?_, fun hd => ?_⟩
    · exact List.mem_append.mp hr'
    · exact ⟨r', List.mem_append_right _ hr', rfl⟩
    · rw [List.map_append, List.nodup_append]
      refine ⟨hd, by simp, ?_⟩
      intro name hname name' hname' same
      obtain ⟨old, hold, rfl⟩ := List.mem_map.mp hname
      rw [List.map_singleton, List.mem_singleton] at hname'
      refine known (List.any_eq_true.mpr ⟨old, hold, decide_eq_true ?_⟩)
      rw [same, hname']

end Collects

mutual
theorem Ty.collects_addRecords : (ty : Ty) → (found : List RecordTy) →
    Collects ty.mentions found (ty.addRecords found)
  | .record r, found => .addTo found r
  | .pointer pointee, found => Ty.collects_addRecords pointee found
  | .function ret params _, found => by
      rw [Ty.mentions, Ty.addRecords]
      exact (Ty.collects_addRecords ret found).trans (Ty.collects_addRecordsList params _)
  | .void, _ | .bool, _ | .int _, _ | .float _, _ => .nothing
theorem Ty.collects_addRecordsList : (tys : List Ty) → (found : List RecordTy) →
    Collects (Ty.mentionsAll tys) found (Ty.addRecordsList tys found)
  | [], _ => .nothing
  | ty :: tys, found => by
      rw [Ty.mentionsAll, Ty.addRecordsList]
      exact (Ty.collects_addRecords ty found).trans (Ty.collects_addRecordsList tys _)
end

/-- Records of one name are the same record. -/
def Consistent (rs : List RecordTy) : Prop := ∀ r ∈ rs, ∀ r' ∈ rs, r.name = r'.name → r = r'

/-- When no name is used for two records, all mentioned records are collected. -/
theorem Collects.mem {rs found : List RecordTy} (h : Collects rs [] found) (hrs : Consistent rs)
    {r : RecordTy} : r ∈ found ↔ r ∈ rs := by
  constructor
  · intro hr
    rcases h.only r hr with hr | hr
    · cases hr
    · exact hr
  · intro hr
    obtain ⟨r', hr', name⟩ := h.named r hr
    rcases h.only r' hr' with hr'' | hr''
    · cases hr''
    · rwa [← hrs r' hr'' r hr name]

end CallThunk
