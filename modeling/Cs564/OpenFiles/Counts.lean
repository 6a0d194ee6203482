import Mathlib.Data.Set.Card
import Cs564.OpenFiles.Table

/-!
# The table counts the handles

For every name but the empty one, the table has an entry as long as there are objects of that name, counts them, and has
the stream that they share (`Counted`).  An object is put in by `share`, or by opening its file first, and taken out by
`close`; an assignment takes its object out and puts it in again.  It fails to do so if the entry has gone and the file does
not exist, which only a self-assignment can come to (`FileCall.Reopens`).  Objects of the empty name are not counted as they
are made, so the entry of that name says nothing; but no other entry depends on it.
-/

namespace Cs564.OpenFiles

namespace Process

/-- The objects of this name. -/
def handles (proc : Process) (name : String) : Set Nat :=
  {obj | ∃ file, proc.objects obj = some file ∧ file.filename_ = name}

/-- What holds of the table and the objects. -/
structure Counted (proc : Process) : Prop where
  finite : {obj | proc.objects obj ≠ none}.Finite
  count : ∀ name, name ≠ "" → proc.open_counts_ name =
    if (proc.handles name).ncard = 0 then none else some ((proc.handles name).ncard : Int)
  stream : ∀ obj file, proc.objects obj = some file → file.filename_ ≠ "" →
    ∃ stream, file.stream_ = some stream ∧ proc.open_streams_ file.filename_ = some (some stream)

section Handles

variable {proc : Process} {obj : Nat} {file : File} {name : String}

theorem handles_finite (h : {obj | proc.objects obj ≠ none}.Finite) (name : String) : (proc.handles name).Finite := by
  refine h.subset ?_
  rintro obj ⟨file, hfile, -⟩
  simp [hfile]

theorem handles_congr {proc' : Process} (hobjects : proc'.objects = proc.objects) (name : String) :
    proc'.handles name = proc.handles name := by
  simp only [handles, hobjects]

theorem handles_setObject_none : (proc.setObject obj none).handles name = proc.handles name \ {obj} := by
  ext x
  by_cases hx : x = obj
  · simp [handles, setObject, hx]
  · simp [handles, setObject, hx]

theorem handles_setObject_some (hfree : proc.objects obj = none) :
    (proc.setObject obj (some file)).handles name =
      if file.filename_ = name then insert obj (proc.handles name) else proc.handles name := by
  ext x
  by_cases hname : file.filename_ = name
  · by_cases hx : x = obj
    · simp [handles, setObject, hx, hname]
    · simp [handles, setObject, hx, hname]
  · by_cases hx : x = obj
    · simp [handles, setObject, hx, hname, hfree]
    · simp [handles, setObject, hx, hname]

theorem mem_handles (hobj : proc.objects obj = some file) : obj ∈ proc.handles file.filename_ := ⟨file, hobj, rfl⟩

theorem setObject_finite (h : {obj | proc.objects obj ≠ none}.Finite) (obj : Nat) (file : Option File) :
    {x | (proc.setObject obj file).objects x ≠ none}.Finite := by
  refine (h.insert obj).subset ?_
  intro x hx
  by_cases hxo : x = obj
  · exact .inl hxo
  · right
    simpa [setObject, hxo] using hx

end Handles

section Counted

variable {creatable : String → Bool} {proc : Process} {obj : Nat} {file : File}

theorem counted_start (files : String → Option PageFile) : Counted (start files) where
  finite := by simp [start]
  count := by simp [start, handles]
  stream := by simp [start]

/-- There is an entry exactly for the names with objects. -/
theorem Counted.entry_iff (h : Counted proc) {name : String} (hname : name ≠ "") :
    (proc.open_counts_ name).isSome = true ↔ (proc.handles name).Nonempty := by
  have hfin := handles_finite h.finite name
  rw [h.count name hname]
  by_cases hzero : (proc.handles name).ncard = 0
  · rw [if_pos hzero, (Set.ncard_eq_zero hfin).mp hzero]
    simp
  · rw [if_neg hzero]
    simp only [Option.isSome_some, true_iff]
    exact Set.nonempty_of_ncard_ne_zero hzero

/-- Entries of the empty name do not matter, nor do the files. -/
theorem Counted.congr (h : Counted proc) {proc' : Process}
    (hcounts : ∀ name, name ≠ "" → proc'.open_counts_ name = proc.open_counts_ name)
    (hstreams : ∀ name, name ≠ "" → proc'.open_streams_ name = proc.open_streams_ name)
    (hobjects : proc'.objects = proc.objects) : Counted proc' where
  finite := hobjects ▸ h.finite
  count := by
    intro name hname
    rw [hcounts name hname, handles_congr hobjects, h.count name hname]
  stream := by
    intro obj file hobj hname
    rw [hobjects] at hobj
    rw [hstreams _ hname]
    exact h.stream obj file hobj hname

/-- An object of the empty name is not counted. -/
theorem Counted.setObject_empty (h : Counted proc) (hfree : proc.objects obj = none) (hempty : file.filename_ = "") :
    Counted (proc.setObject obj (some file)) where
  finite := setObject_finite h.finite obj _
  count := by
    intro name hname
    have hhandles : (proc.setObject obj (some file)).handles name = proc.handles name := by
      rw [handles_setObject_some hfree, if_neg]
      rw [hempty]
      exact Ne.symm hname
    rw [hhandles]
    exact h.count name hname
  stream := by
    intro x f hx hname
    by_cases hxo : x = obj
    · simp only [setObject, hxo, Function.update_self, Option.some.injEq] at hx
      exact absurd (hx ▸ hempty) hname
    · simp only [setObject, Function.update_of_ne hxo] at hx
      exact h.stream x f hx hname

/-- A new object gets an entry that counts it: the one of its name, or a new one. -/
theorem Counted.attach (h : Counted proc) (hfree : proc.objects obj = none) {proc' : Process} {stream : Nat}
    (hobjects : proc'.objects = proc.objects) (hstream : file.stream_ = some stream)
    (hcounts : proc'.open_counts_ = Function.update proc.open_counts_ file.filename_
      (some ((proc.handles file.filename_).ncard + 1 : Int)))
    (hstreams : proc'.open_streams_ = Function.update proc.open_streams_ file.filename_ (some (some stream)))
    (hshared : ∀ x f, proc.objects x = some f → f.filename_ = file.filename_ → f.stream_ = some stream) :
    Counted (proc'.setObject obj (some file)) where
  finite := setObject_finite (hobjects ▸ h.finite) obj _
  count := by
    intro name hname'
    rw [handles_setObject_some (hobjects ▸ hfree), handles_congr hobjects]
    simp only [setObject, hcounts]
    by_cases heq : name = file.filename_
    · have hnot : obj ∉ proc.handles name := by
        rintro ⟨f, hf, -⟩
        rw [hfree] at hf
        exact absurd hf (by simp)
      rw [if_pos heq.symm, Set.ncard_insert_of_notMem hnot (handles_finite h.finite name), heq, Function.update_self]
      simp
    · rw [if_neg (Ne.symm heq), Function.update_of_ne heq]
      exact h.count name hname'
  stream := by
    intro x f hx hname'
    simp only [setObject, hstreams]
    by_cases hxo : x = obj
    · simp only [setObject, hxo, Function.update_self, Option.some.injEq] at hx
      subst hx
      exact ⟨stream, hstream, Function.update_self ..⟩
    · simp only [setObject, Function.update_of_ne hxo, hobjects] at hx
      by_cases heq : f.filename_ = file.filename_
      · exact ⟨stream, hshared x f hx heq, by rw [heq, Function.update_self]⟩
      · rw [Function.update_of_ne heq]
        exact h.stream x f hx hname'

end Counted

/-! ### The operations -/

section Operations

variable {creatable : String → Bool} {proc : Process} {obj : Nat} {file : File}

theorem close_fst (proc : Process) (file : File) : (proc.close file).1 = { file with stream_ := none } := rfl

theorem close_objects (proc : Process) (file : File) : (proc.close file).2.objects = proc.objects := by
  unfold close
  dsimp only
  split <;> rfl

theorem close_files (proc : Process) (file : File) : (proc.close file).2.files = proc.files := by
  unfold close
  dsimp only
  split <;> rfl

theorem close_counts (proc : Process) (file : File) : (proc.close file).2.open_counts_ =
    Function.update proc.open_counts_ file.filename_
      (if (proc.open_counts_ file.filename_).getD 0 - 1 = 0 then none
        else some ((proc.open_counts_ file.filename_).getD 0 - 1)) := by
  unfold close
  dsimp only
  split <;> rfl

theorem close_streams (proc : Process) (file : File) : (proc.close file).2.open_streams_ =
    if (proc.open_counts_ file.filename_).getD 0 - 1 = 0 then Function.update proc.open_streams_ file.filename_ none
    else proc.open_streams_ := by
  unfold close
  dsimp only
  split <;> rfl

/-- An object is closed and goes. -/
theorem Counted.destroy (h : Counted proc) (hobj : proc.objects obj = some file) : Counted (proc.destroy obj file) where
  finite := by
    have hfin := setObject_finite (close_objects proc file ▸ h.finite) obj none
    exact hfin
  count := by
    intro name hname
    have hhandles : (proc.destroy obj file).handles name = proc.handles name \ {obj} := by
      rw [Process.destroy, handles_setObject_none, handles_congr (close_objects proc file)]
    have hcounts : (proc.destroy obj file).open_counts_ = (proc.close file).2.open_counts_ := rfl
    rw [hhandles, hcounts, close_counts]
    by_cases heq : name = file.filename_
    · subst heq
      have hmem := mem_handles hobj
      have hfin := handles_finite h.finite file.filename_
      have hpos : (proc.handles file.filename_).ncard ≠ 0 := by
        rw [Ne, Set.ncard_eq_zero hfin]
        exact Set.nonempty_iff_ne_empty.mp ⟨obj, hmem⟩
      rw [Function.update_self, h.count _ hname, if_neg hpos, Option.getD_some,
        Set.ncard_sdiff_singleton_of_mem hmem]
      by_cases hone : (proc.handles file.filename_).ncard = 1
      · simp [hone]
      · rw [if_neg (by omega), if_neg (by omega)]
        congr 1
        omega
    · have hsame : proc.handles name \ {obj} = proc.handles name := by
        refine Set.sdiff_singleton_eq_self ?_
        rintro ⟨f, hf, rfl⟩
        rw [hobj] at hf
        exact heq (by rw [← Option.some.inj hf])
      rw [Function.update_of_ne heq, hsame]
      exact h.count name hname
  stream := by
    intro x f hx hname
    have hne : x ≠ obj := by
      rintro rfl
      simp [Process.destroy, setObject] at hx
    simp only [Process.destroy, setObject, Function.update_of_ne hne, close_objects] at hx
    obtain ⟨stream, hstream, htable⟩ := h.stream x f hx hname
    refine ⟨stream, hstream, ?_⟩
    have hstreams : (proc.destroy obj file).open_streams_ = (proc.close file).2.open_streams_ := rfl
    rw [hstreams, close_streams]
    split
    · rename_i hlast
      rw [Function.update_of_ne]
      · exact htable
      -- two objects of the name are left
      · intro heq
        have hcount := h.count file.filename_ (heq ▸ hname)
        have hpair : ({x, obj} : Set Nat) ⊆ proc.handles file.filename_ := by
          rintro y (rfl | rfl)
          · exact ⟨f, hx, heq⟩
          · exact mem_handles hobj
        have htwo := Set.ncard_le_ncard hpair (handles_finite h.finite _)
        rw [Set.ncard_pair hne] at htwo
        rw [hcount, if_neg (by omega), Option.getD_some] at hlast
        omega
    · exact htable

/-- The entry of the name is shared. -/
theorem Counted.share (h : Counted proc) (hfree : proc.objects obj = none)
    (hlive : file.filename_ ≠ "" → (proc.handles file.filename_).Nonempty) :
    Counted ((proc.setEntry file.filename_ ((proc.open_counts_ file.filename_).getD 0 + 1)
      (proc.streamOf file.filename_)).setObject obj (some { file with stream_ := proc.streamOf file.filename_ })) := by
  by_cases hempty : file.filename_ = ""
  · refine Counted.setObject_empty (h.congr ?_ ?_ rfl) hfree hempty
    · intro name hname
      exact Function.update_of_ne (hempty ▸ hname) _ _
    · intro name hname
      exact Function.update_of_ne (hempty ▸ hname) _ _
  · obtain ⟨x, f, hx, hf⟩ := hlive hempty
    obtain ⟨stream, hstream, htable⟩ := h.stream x f hx (hf ▸ hempty)
    rw [hf] at htable
    have hstreamOf : proc.streamOf file.filename_ = some stream := by rw [streamOf, htable, Option.getD_some]
    have hpos : (proc.handles file.filename_).ncard ≠ 0 := by
      rw [Ne, Set.ncard_eq_zero (handles_finite h.finite _)]
      exact Set.nonempty_iff_ne_empty.mp ⟨x, f, hx, hf⟩
    have hcount := h.count file.filename_ hempty
    rw [if_neg hpos] at hcount
    rw [hstreamOf, hcount, Option.getD_some]
    refine h.attach hfree rfl rfl rfl rfl ?_
    intro y g hy hg
    obtain ⟨stream', hstream', htable'⟩ := h.stream y g hy (hg ▸ hempty)
    rw [hg, htable] at htable'
    rw [hstream']
    exact (Option.some.inj htable').symm

/-- `openIfNeeded` either throws and changes nothing, or gives the object an entry. -/
theorem Counted.openIfNeeded (h : Counted proc) (hfree : proc.objects obj = none) (creatable : String → Bool)
    (create_new : Bool) (file : File) :
    match proc.openIfNeeded creatable create_new file with
    | (none, file', proc') => Counted (proc'.setObject obj (some file'))
    | (some _, file', proc') => proc' = proc ∧ file'.filename_ = file.filename_ := by
  unfold Process.openIfNeeded
  cases hentry : proc.open_counts_ file.filename_ with
  | some count =>
    have hshare := h.share hfree fun hname : file.filename_ ≠ "" =>
      (h.entry_iff hname).mp (by rw [hentry, Option.isSome_some])
    rw [hentry, Option.getD_some] at hshare
    exact hshare
  | none =>
    dsimp only
    by_cases hexists : (create_new && proc.fileExists file.filename_) = true
    · rw [if_pos hexists]
      exact ⟨rfl, rfl⟩
    · rw [if_neg hexists]
      by_cases hmissing : (!create_new && !proc.fileExists file.filename_) = true
      · rw [if_pos hmissing]
        exact ⟨rfl, rfl⟩
      · rw [if_neg hmissing]
        dsimp only
        by_cases hempty : file.filename_ = ""
        · refine Counted.setObject_empty (h.congr ?_ ?_ rfl) hfree hempty
          · intro name hname
            exact Function.update_of_ne (hempty ▸ hname) _ _
          · intro name hname
            exact Function.update_of_ne (hempty ▸ hname) _ _
        · have hnone : ¬ (proc.handles file.filename_).Nonempty := by
            rw [← h.entry_iff hempty, hentry]
            simp
          have hzero : (proc.handles file.filename_).ncard = 0 := by
            rw [Set.not_nonempty_iff_eq_empty.mp hnone, Set.ncard_empty]
          refine h.attach hfree rfl rfl ?_ rfl ?_
          · rw [hzero]
            rfl
          · intro x f hx hf
            exact absurd ⟨x, f, hx, hf⟩ hnone

/-- An object of a name with an entry can be opened. -/
theorem openIfNeeded_entry (hentry : (proc.open_counts_ file.filename_).isSome = true) :
    (proc.openIfNeeded creatable false file).1 = none := by
  obtain ⟨count, hcount⟩ := Option.isSome_iff_exists.mp hentry
  rw [Process.openIfNeeded, hcount]

/-- An object of a file that exists can be opened. -/
theorem openIfNeeded_exists (hexists : proc.fileExists file.filename_ = true) :
    (proc.openIfNeeded creatable false file).1 = none := by
  unfold Process.openIfNeeded
  cases proc.open_counts_ file.filename_ with
  | some count => rfl
  | none => simp [hexists]

/-- `openIfNeeded` does not look at the objects. -/
theorem openIfNeeded_setObject (create_new : Bool) (old : Option File) :
    (proc.setObject obj old).openIfNeeded creatable create_new file =
      ((proc.openIfNeeded creatable create_new file).1, (proc.openIfNeeded creatable create_new file).2.1,
        (proc.openIfNeeded creatable create_new file).2.2.setObject obj old) := by
  have hcounts : (proc.setObject obj old).open_counts_ file.filename_ = proc.open_counts_ file.filename_ := rfl
  unfold Process.openIfNeeded
  rw [hcounts]
  cases proc.open_counts_ file.filename_ with
  | some count => rfl
  | none =>
    have hexists : (proc.setObject obj old).fileExists file.filename_ = proc.fileExists file.filename_ := rfl
    dsimp only
    rw [hexists]
    split
    · rfl
    · split <;> rfl

/-- An assignment closes its object and opens it again. -/
theorem Counted.assign (h : Counted proc) (hobj : proc.objects obj = some file) {src : Nat} {rhs : File}
    (hsrc : proc.objects src = some rhs) (hreopens : (FileCall.assign obj src).Reopens proc) :
    Counted (proc.assign creatable obj file src rhs).2 := by
  have hdestroy := h.destroy hobj
  have hfree : (proc.destroy obj file).objects obj = none := by simp [Process.destroy, setObject]
  obtain ⟨target, htarget, hname⟩ : ∃ target : File, target = { (proc.close file).1 with
      filename_ := (if src = obj then (proc.close file).1 else rhs).filename_
      valid_ := (if src = obj then (proc.close file).1 else rhs).valid_ } ∧ target.filename_ = rhs.filename_ := by
    refine ⟨_, rfl, ?_⟩
    by_cases hself : src = obj
    · subst hself
      rw [hobj] at hsrc
      rw [if_pos rfl, close_fst, ← Option.some.inj hsrc]
    · rw [if_neg hself]
  have hresult : (proc.assign creatable obj file src rhs).2 =
      ((proc.close file).2.openIfNeeded creatable false target).2.2.setObject obj
        (some ((proc.close file).2.openIfNeeded creatable false target).2.1) := by
    rw [htarget]
    rfl
  have hopen := hdestroy.openIfNeeded hfree creatable false target
  rw [Process.destroy, openIfNeeded_setObject] at hopen
  have htwice : ∀ (p : Process) (f : File), (p.setObject obj none).setObject obj (some f) = p.setObject obj (some f) := by
    intro p f
    simp [setObject]
  rw [hresult]
  by_cases hempty : rhs.filename_ = ""
  · cases hthrows : ((proc.close file).2.openIfNeeded creatable false target).1 with
    | none =>
      rw [hthrows] at hopen
      dsimp only at hopen
      rwa [htwice] at hopen
    | some error =>
      rw [hthrows] at hopen
      obtain ⟨hsame, hname'⟩ := hopen
      have hname'' : ((proc.close file).2.openIfNeeded creatable false target).2.1.filename_ = "" := by
        rw [hname', hname, hempty]
      have hkept := hdestroy.setObject_empty hfree hname''
      rw [Process.destroy, ← hsame, htwice] at hkept
      exact hkept
  · -- the object is not the last one of its name, or its file exists
    have hreturns : ((proc.close file).2.openIfNeeded creatable false target).1 = none := by
      have hother : (∃ other same, other ≠ obj ∧ proc.objects other = some same ∧ same.filename_ = rhs.filename_) ∨
          proc.fileExists rhs.filename_ = true := by
        by_cases hself : src = obj
        · obtain rfl := hself
          exact hreopens rfl rhs hsrc hempty
        · exact .inl ⟨src, rhs, hself, hsrc, rfl⟩
      rcases hother with ⟨other, same, hne, hsame, hsameName⟩ | hexists
      · refine openIfNeeded_entry ?_
        rw [hname]
        refine (hdestroy.entry_iff hempty).mpr ⟨other, ?_⟩
        rw [Process.destroy, handles_setObject_none, handles_congr (close_objects proc file)]
        exact ⟨⟨same, hsame, hsameName⟩, hne⟩
      · refine openIfNeeded_exists ?_
        rw [fileExists, close_files, hname]
        exact hexists
    rw [hreturns] at hopen
    dsimp only at hopen
    rwa [htwice] at hopen

theorem Counted.construct (h : Counted proc) (hfree : proc.objects obj = none) {name : String} {create_new : Bool} {result : Option OpenError × Process}
    (hresult : proc.construct creatable obj name create_new = some result) : Counted result.2 := by
  have hopen := h.openIfNeeded hfree creatable create_new { filename_ := name, stream_ := none, valid_ := true }
  unfold Process.construct at hresult
  rcases hthrows : proc.openIfNeeded creatable create_new { filename_ := name, stream_ := none, valid_ := true } with
    ⟨_ | error, file', proc'⟩
  · rw [hthrows] at hopen hresult
    dsimp only at hopen hresult
    split at hresult
    · split at hresult
      · simp at hresult
      · rw [← Option.some.inj hresult]
        exact hopen.congr (fun _ _ => rfl) (fun _ _ => rfl) rfl
    · rw [← Option.some.inj hresult]
      exact hopen
  · rw [hthrows] at hopen hresult
    dsimp only at hopen hresult
    rw [← Option.some.inj hresult, hopen.1]
    exact h

theorem Counted.remove (h : Counted proc) (filename : String) : Counted (proc.remove filename).2 := by
  unfold Process.remove
  split
  · exact h
  · split
    · exact h
    · exact h.congr (fun _ _ => rfl) (fun _ _ => rfl) rfl

/-- Every call keeps the count, if its self-assignment can open the file again. -/
theorem Counted.call (h : Counted proc) {c : FileCall} (hreopens : c.Reopens proc)
    {result : Option OpenError × Process} (hresult : proc.call creatable c = some result) : Counted result.2 := by
  have hfree : ∀ obj, ¬ (proc.objects obj).isSome = true → proc.objects obj = none := by simp
  cases c with
  | create obj filename =>
    rw [Process.call] at hresult
    split at hresult
    · simp at hresult
    · rename_i hnone
      exact h.construct (hfree obj hnone) hresult
  | «open» obj filename =>
    rw [Process.call] at hresult
    split at hresult
    · simp at hresult
    · rename_i hnone
      exact h.construct (hfree obj hnone) hresult
  | default obj =>
    rw [Process.call] at hresult
    split at hresult
    · simp at hresult
    · rename_i hnone
      rw [← Option.some.inj hresult]
      exact h.setObject_empty (hfree obj hnone) rfl
  | copy obj other =>
    rw [Process.call] at hresult
    split at hresult
    · simp at hresult
    · rename_i hnone
      obtain ⟨file, hfile, rfl⟩ := Option.map_eq_some_iff.mp hresult
      exact h.share (hfree obj hnone) fun _ => ⟨other, mem_handles hfile⟩
  | assign obj rhs =>
    obtain ⟨file, hfile, hrest⟩ := Option.bind_eq_some_iff.mp hresult
    obtain ⟨rhsFile, hrhs, rfl⟩ := Option.map_eq_some_iff.mp hrest
    exact h.assign hfile hrhs hreopens
  | destroy obj =>
    obtain ⟨file, hfile, rfl⟩ := Option.map_eq_some_iff.mp hresult
    exact h.destroy hfile
  | remove filename =>
    rw [← Option.some.inj hresult]
    exact h.remove filename

theorem Counted.run (h : Counted proc) {calls : List FileCall} (horderly : proc.Orderly creatable calls) {last : Process}
    (hrun : proc.run creatable calls = some last) : Counted last := by
  induction calls generalizing proc with
  | nil =>
    rw [← Option.some.inj hrun]
    exact h
  | cons c calls ih =>
    obtain ⟨result, hcall, hrest⟩ := Option.bind_eq_some_iff.mp hrun
    exact ih (h.call horderly.1 hcall) (horderly.2 result hcall) hrest

end Operations

/-! ### Every run -/

/-- After any run in which self-assignments can open their files again, the table has an entry for a name exactly as long
as there are objects of that name.  It counts them and has the stream that they share, and `remove` refuses the files that
exist and have such objects. -/
theorem open_table (creatable : String → Bool) (files : String → Option PageFile) (calls : List FileCall)
    (horderly : (start files).Orderly creatable calls) {proc : Process}
    (hrun : (start files).run creatable calls = some proc) (name : String) (hname : name ≠ "") :
    ((proc.open_counts_ name).isSome = true ↔ (proc.handles name).Nonempty) ∧
      (∀ count, proc.open_counts_ name = some count → count = ((proc.handles name).ncard : Int)) ∧
      ((proc.handles name).Nonempty → ∃ stream, proc.open_streams_ name = some (some stream) ∧
        ∀ obj file, proc.objects obj = some file → file.filename_ = name → file.stream_ = some stream) ∧
      ((proc.remove name).1 = some (.fileOpen name) ↔ proc.fileExists name = true ∧ (proc.handles name).Nonempty) := by
  have h : Counted proc := (counted_start files).run horderly hrun
  refine ⟨h.entry_iff hname, fun count hcount => ?_, ?_, ?_⟩
  · rw [h.count name hname] at hcount
    split at hcount
    · simp at hcount
    · exact (Option.some.inj hcount).symm
  · rintro ⟨obj, file, hobj, rfl⟩
    obtain ⟨stream, -, htable⟩ := h.stream obj file hobj hname
    refine ⟨stream, htable, fun obj' file' hobj' hname' => ?_⟩
    obtain ⟨stream', hstream', htable'⟩ := h.stream obj' file' hobj' (hname' ▸ hname)
    rw [hname', htable] at htable'
    rw [hstream']
    exact (Option.some.inj htable').symm
  · rw [← h.entry_iff hname]
    unfold Process.remove
    cases hexists : proc.fileExists name with
    | false => simp
    | true =>
      cases hentry : (proc.open_counts_ name).isSome with
      | false => simp [isOpen, hexists, hentry]
      | true => simp [isOpen, hexists, hentry]

/-- One call more in a run that meets the condition. -/
theorem orderly_cons {creatable : String → Bool} {proc : Process} {c : FileCall} {calls : List FileCall}
    {result : Option OpenError × Process} (hcall : proc.call creatable c = some result) (hreopens : c.Reopens proc)
    (h : Orderly creatable result.2 calls) : Orderly creatable proc (c :: calls) := by
  refine ⟨hreopens, fun other hother => ?_⟩
  obtain rfl := Option.some.inj (hcall.symm.trans hother)
  exact h

/-- A `BufDesc` takes a file, the first handle is assigned to itself and goes, and `clear` closes the file again. -/
theorem open_table_bufDesc : ∃ proc : Process,
    (start fun _ => none).run (fun _ => true) (bufDesc 0 1 ++ [.create 2 "f", .open 4 "g", .assign 2 2, .assign 0 2,
      .copy 3 0, .destroy 2, .remove "f", .default 1, .assign 0 1, .destroy 1]) = some proc ∧
    ((proc.open_counts_ "f").isSome = true ↔ (proc.handles "f").Nonempty) := by
  have hends : ((start fun _ => none).run (fun _ => true) (bufDesc 0 1 ++ [.create 2 "f", .open 4 "g", .assign 2 2,
      .assign 0 2, .copy 3 0, .destroy 2, .remove "f", .default 1, .assign 0 1, .destroy 1])).isSome = true := rfl
  obtain ⟨proc, hrun⟩ := Option.isSome_iff_exists.mp hends
  have horderly : (start fun _ => none).Orderly (fun _ => true) (bufDesc 0 1 ++ [.create 2 "f", .open 4 "g",
      .assign 2 2, .assign 0 2, .copy 3 0, .destroy 2, .remove "f", .default 1, .assign 0 1, .destroy 1]) := by
    refine orderly_cons rfl trivial (orderly_cons rfl trivial (orderly_cons rfl ?_ (orderly_cons rfl trivial
      (orderly_cons rfl trivial (orderly_cons rfl trivial (orderly_cons rfl ?_ (orderly_cons rfl ?_
        (orderly_cons rfl trivial (orderly_cons rfl trivial (orderly_cons rfl trivial (orderly_cons rfl trivial
          (orderly_cons rfl ?_ (orderly_cons rfl trivial trivial)))))))))))))
    · exact fun h => absurd h (by decide)
    · -- the object is the only one of its name, and the file exists
      rintro - file hfile -
      obtain rfl := Option.some.inj hfile
      exact .inr rfl
    · exact fun h => absurd h (by decide)
    · exact fun h => absurd h (by decide)
  exact ⟨proc, hrun, (open_table (fun _ => true) (fun _ => none) _ horderly hrun "f" (by decide)).1⟩

/-- The disk does not take the file, the only object of its name is assigned to itself, and the entry is gone. -/
theorem open_table_self : ¬ ∀ (creatable : String → Bool) (files : String → Option PageFile) (calls : List FileCall)
    (proc : Process), (start files).run creatable (bufDesc 0 1 ++ calls) = some proc → ∀ name, name ≠ "" →
      ((proc.open_counts_ name).isSome = true ↔ (proc.handles name).Nonempty) := by
  intro h
  have hstate : ((start fun _ => none).run (fun _ => false) (bufDesc 0 1 ++ [.create 2 "f", .assign 2 2])).map
      (fun proc => (proc.open_counts_ "f", (proc.objects 2).map (·.filename_))) = some (none, some "f") := rfl
  obtain ⟨proc, hrun, hproc⟩ := Option.map_eq_some_iff.mp hstate
  obtain ⟨hcount, hobject⟩ := Prod.mk.inj hproc
  have hlive := h _ _ _ proc hrun "f" (by decide)
  obtain ⟨file, hfile, hname⟩ := Option.map_eq_some_iff.mp hobject
  have hsome := hlive.mpr ⟨2, file, hfile, hname⟩
  rw [hcount] at hsome
  exact absurd hsome (by decide)

end Process

end Cs564.OpenFiles
