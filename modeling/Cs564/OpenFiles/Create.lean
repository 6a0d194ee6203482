import Cs564.OpenFiles.Counts

/-!
# Creating a file that exists

`openIfNeeded` looks for the file on disk only where the table has no entry for its name.  So the constructor refuses a
file that exists exactly if it is not open (`create_refuses_iff`); on an open file it returns a second handle and writes
a fresh header through the shared stream (`create_open`).
-/

namespace Cs564.OpenFiles

namespace Process

variable {creatable : String → Bool} {proc : Process} {obj : Nat} {name : String}

/-- The constructor does not create a file that exists: it throws, and the file stays as it is. -/
def Refuses (creatable : String → Bool) (proc : Process) (obj : Nat) (name : String) : Prop :=
  ∃ proc', proc.construct creatable obj name true = some (some (.fileExists name), proc') ∧
    proc'.files name = proc.files name

/-- On an open file the constructor returns, and the file has the header of a new one. -/
theorem create_open {count : Int} {stream : Nat} {file : PageFile} (hentry : proc.open_counts_ name = some count)
    (hstream : proc.open_streams_ name = some (some stream)) (hfile : proc.files name = some file)
    (hgood : file.failed = false) :
    ∃ proc', proc.construct creatable obj name true = some (none, proc') ∧
      proc'.files name = some { file with header := PageFile.create.header } := by
  have hstreamOf : proc.streamOf name = some stream := by rw [streamOf, hstream, Option.getD_some]
  have hopen : proc.openIfNeeded creatable true { filename_ := name, stream_ := none, valid_ := true } =
      (none, { filename_ := name, stream_ := some stream, valid_ := true },
        proc.setEntry name (count + 1) (some stream)) := by
    rw [openIfNeeded]
    dsimp only
    rw [hentry, hstreamOf]
  refine ⟨((proc.setEntry name (count + 1) (some stream)).writeHeader name PageFile.create.header).setObject obj
    (some { filename_ := name, stream_ := some stream, valid_ := true }), ?_, ?_⟩
  · rw [construct, hopen]
    rfl
  · simp [setObject, writeHeader, setEntry, hfile, hgood]

/-- A file that exists is refused and left alone exactly if the table of open files has no entry for it. -/
theorem create_refuses_iff (creatable : String → Bool) (proc : Process) (obj : Nat) (name : String)
    (hexists : proc.fileExists name = true) : Refuses creatable proc obj name ↔ proc.open_counts_ name = none := by
  constructor
  · rintro ⟨proc', hthrows, -⟩
    cases hentry : proc.open_counts_ name with
    | none => rfl
    | some count =>
      rw [construct, openIfNeeded] at hthrows
      dsimp only at hthrows
      rw [hentry] at hthrows
      -- with an entry nothing is thrown
      simp only [if_true] at hthrows
      split at hthrows
      · simp at hthrows
      · simp at hthrows
  · intro hentry
    refine ⟨proc, ?_, rfl⟩
    rw [construct, openIfNeeded]
    dsimp only
    rw [hentry]
    simp [hexists]

/-- After a run in which self-assignments can open their files again this means that no object of the name is live. -/
theorem create_refuses_live_iff {files : String → Option PageFile} {calls : List FileCall}
    (horderly : (start files).Orderly creatable calls) (hrun : (start files).run creatable calls = some proc) (hname : name ≠ "")
    (hexists : proc.fileExists name = true) :
    Refuses creatable proc obj name ↔ ¬ (proc.handles name).Nonempty := by
  have h : Counted proc := (counted_start files).run horderly hrun
  rw [create_refuses_iff creatable proc obj name hexists, ← h.entry_iff hname]
  simp

/-- A file with one page in use. -/
def onePage : PageFile :=
  { header := { num_pages := 2, first_used_page := 1, num_free_pages := 0, first_free_page := 0 }
    pages := fun n => if n = 1 then some (Page.fresh.set_page_number 1) else none
    failed := false }

theorem create_refuses_onePage :
    Refuses (fun _ => true) (start fun name => if name = "f" then some onePage else none) 0 "f" ↔
      (start fun name => if name = "f" then some onePage else none).open_counts_ "f" = none :=
  create_refuses_iff (fun _ => true) (start fun name => if name = "f" then some onePage else none) 0 "f" rfl

/-- The file is open, and its page is lost. -/
theorem create_destroys : ¬ ∀ (files : String → Option PageFile) (calls : List FileCall) (proc : Process) (obj : Nat)
    (name : String), (start files).run (fun _ => true) calls = some proc → proc.objects obj = none →
      proc.fileExists name = true → Refuses (fun _ => true) proc obj name := by
  intro h
  have hstate : ((start fun name => if name = "f" then some onePage else none).run (fun _ => true) [.open 0 "f"]).map
      (fun proc => (proc.open_counts_ "f", proc.objects 1, proc.fileExists "f")) = some (some 1, none, true) := rfl
  obtain ⟨proc, hrun, hproc⟩ := Option.map_eq_some_iff.mp hstate
  simp only [Prod.mk.injEq] at hproc
  obtain ⟨hcount, hfree, hexists⟩ := hproc
  have hnone := (create_refuses_iff (fun _ => true) proc 1 "f" hexists).mp (h _ _ proc 1 "f" hrun hfree hexists)
  rw [hcount] at hnone
  exact absurd hnone (by simp)

end Process

end Cs564.OpenFiles
