import IstKvs.JobDispatch

/-! The two paths that `entry_files` makes of a directory entry. The last dot is looked for
twice, in the name and in the whole path. -/

namespace IstKvs.OutputPaths
open Operations JobDispatch

/-- The paths of an accepted entry, each with its terminator inside its array. -/
structure WellFormed (dir name : CString) (files : JobPaths) : Prop where
  inPath : files.inPath.bytes = dir.bytes ++ text "/" ++ name.bytes
  outPath : ∃ stem, files.inPath.bytes = stem ++ text ".job" ∧ files.outPath.bytes = stem ++ text ".out"
  inFits : files.inPath.bytes.length + 1 ≤ MAX_JOB_FILE_NAME_SIZE
  outFits : files.outPath.bytes.length + 1 ≤ MAX_JOB_FILE_NAME_SIZE

section Entries
variable {dir name other : CString} {files files' : JobPaths}

theorem entryFiles_of_stem {stem : List UInt8} (some : stem ≠ []) (split : name.bytes = stem ++ text ".job")
    (fits : dir.bytes.length + name.bytes.length + 2 ≤ MAX_JOB_FILE_NAME_SIZE) :
    ∃ files, entryFiles dir name = .ok files := by
  have dot : strrchr 46 name.bytes = .some stem.length := by
    rw [split]
    exact strrchr_append stem [106, 111, 98] (by decide)
  have extension : name.bytes.drop stem.length = text ".job" := by
    rw [split, List.drop_left]
  have accepted : ¬(stem.length = 0 ∨ (name.bytes.drop stem.length).length ≠ 4 ∨
      name.bytes.drop stem.length ≠ text ".job") := by
    rw [extension]
    simp only [List.length_eq_zero_iff, some, false_or, ne_eq, not_true_eq_false, or_false]
    decide
  have short : ¬MAX_JOB_FILE_NAME_SIZE < name.bytes.length + dir.bytes.length + 2 := by omega
  unfold entryFiles
  simp only [dot, if_neg accepted, if_neg short]
  exact ⟨_, rfl⟩

theorem extension_length : (text ".job").length = 4 := by decide

theorem accepted_iff (dir name : CString) :
    (∃ files, entryFiles dir name = .ok files) ↔ 4 < name.bytes.length ∧ text ".job" <:+ name.bytes ∧
      dir.bytes.length + name.bytes.length + 2 ≤ MAX_JOB_FILE_NAME_SIZE := by
  constructor
  · rintro ⟨files, accepted⟩
    obtain ⟨stem, some, split, inPath, _, fits⟩ := entryFiles_accepted accepted
    have longer := List.length_pos_iff.mpr some
    have slash : (text "/").length = 1 := by decide
    rw [split]
    simp only [inPath, List.length_append, extension_length, slash] at fits ⊢
    exact ⟨by omega, List.suffix_append stem _, by omega⟩
  · rintro ⟨longer, ⟨stem, split⟩, fits⟩
    apply entryFiles_of_stem _ split.symm fits
    intro empty
    rw [← split, empty, List.nil_append, extension_length] at longer
    omega

theorem wellFormed_of_accepted (accepted : entryFiles dir name = .ok files) : WellFormed dir name files := by
  obtain ⟨stem, _, split, inPath, outPath, fits⟩ := entryFiles_accepted accepted
  have same : files.outPath.bytes.length = files.inPath.bytes.length := by
    have output : (text ".out").length = 4 := by decide
    simp only [inPath, outPath, List.length_append, extension_length, output]
  exact
    { inPath := by rw [inPath, split, List.append_assoc]
      outPath := ⟨_, inPath, outPath⟩
      inFits := fits
      outFits := same ▸ fits }

/-- The output path keeps the whole stem of the name. -/
theorem name_of_outPath (accepted : entryFiles dir name = .ok files) (accepted' : entryFiles dir other = .ok files')
    (same : files.outPath = files'.outPath) : name = other := by
  obtain ⟨stem, _, split, _, outPath, _⟩ := entryFiles_accepted accepted
  obtain ⟨stem', _, split', _, outPath', _⟩ := entryFiles_accepted accepted'
  have paths : dir.bytes ++ text "/" ++ stem ++ text ".out" = dir.bytes ++ text "/" ++ stem' ++ text ".out" := by
    rw [← outPath, ← outPath', same]
  have stems : stem = stem' := List.append_cancel_left (List.append_cancel_right paths)
  apply CString.ext
  rw [split, split', stems]

theorem outPath_ne_inPath (accepted : entryFiles dir name = .ok files)
    (accepted' : entryFiles dir other = .ok files') : files.outPath ≠ files'.inPath := by
  obtain ⟨stem, _, _, _, outPath, _⟩ := entryFiles_accepted accepted
  obtain ⟨stem', _, _, inPath, _, _⟩ := entryFiles_accepted accepted'
  intro same
  have ends : dir.bytes ++ text "/" ++ stem ++ text ".out" = dir.bytes ++ text "/" ++ stem' ++ text ".job" := by
    rw [← outPath, ← inPath, same]
  have extensions := List.append_inj_right' ends (by decide)
  exact absurd extensions (by decide)

end Entries

/-- `entry_files` accepts exactly the names with a stem and the extension `.job` whose path
fits; the paths of one directory are well formed, and no output path is the path of
another output or of an input. -/
theorem job_paths_well_formed (dir name : CString) :
    ((∃ files, entryFiles dir name = .ok files) ↔ 4 < name.bytes.length ∧ text ".job" <:+ name.bytes ∧
      dir.bytes.length + name.bytes.length + 2 ≤ MAX_JOB_FILE_NAME_SIZE) ∧
    ∀ files, entryFiles dir name = .ok files → WellFormed dir name files ∧
      ∀ other files', entryFiles dir other = .ok files' →
        (name ≠ other → files.outPath ≠ files'.outPath) ∧ files.outPath ≠ files'.inPath := by
  refine ⟨accepted_iff dir name, fun files accepted => ⟨wellFormed_of_accepted accepted, ?_⟩⟩
  intro other files' accepted'
  constructor
  · intro different same
    exact different (name_of_outPath accepted accepted' same)
  · exact outPath_ne_inPath accepted accepted'

/-- A directory with a dot, and a name with two. -/
theorem job_paths_of_dotted_names :
    WellFormed (literal "./d.x") (literal "a.b.job") ⟨literal "./d.x/a.b.job", literal "./d.x/a.b.out"⟩ ∧
      literal "./d.x/a.b.out" ≠ literal "./d.x/a.job" := by
  have first : entryFiles (literal "./d.x") (literal "a.b.job") =
      .ok ⟨literal "./d.x/a.b.job", literal "./d.x/a.b.out"⟩ := by decide
  have second : entryFiles (literal "./d.x") (literal "a.job") =
      .ok ⟨literal "./d.x/a.job", literal "./d.x/a.out"⟩ := by decide
  obtain ⟨formed, apart⟩ := (job_paths_well_formed (literal "./d.x") (literal "a.b.job")).2 _ first
  exact ⟨formed, (apart (literal "a.job") _ second).2⟩

end IstKvs.OutputPaths
