import MediaCatalog.Database.Companion

/-!
The entries of the root. What has a name there is found by it; what is made
goes behind the others, and what is removed leaves the others as they are.
-/

namespace MediaCatalog

namespace Entry

variable {entries more : List Entry} {entry : Entry} {name : Name}

theorem find?_eq_none :
    find? entries name = none ↔ ∀ entry ∈ entries, entry.name ≠ name := by
  unfold find?
  rw [List.find?_eq_none]
  simp only [decide_eq_true_eq, ne_eq]

theorem find?_cons_self (entries : List Entry) (entry : Entry) :
    find? (entry :: entries) entry.name = some entry := by
  simp only [find?, List.find?_cons, decide_true]

theorem find?_cons_ne (entry : Entry) (entries : List Entry) (hne : entry.name ≠ name) :
    find? (entry :: entries) name = find? entries name := by
  simp only [find?, List.find?_cons, hne, decide_false]

theorem find?_append (hnone : find? entries name = none) :
    find? (entries ++ more) name = find? more name := by
  unfold find? at hnone ⊢
  rw [List.find?_append, hnone, Option.none_or]

theorem put_of_none (hnone : find? entries entry.name = none) :
    put entries entry = entries ++ [entry] := by
  have hfree : (entries.any fun other => other.name = entry.name) = false := by
    rw [List.any_eq_false]
    intro other hother
    simpa using find?_eq_none.mp hnone other hother
  unfold put
  rw [hfree]
  rfl

/-- An entry takes the place of its namesake at the head, and of no other. -/
theorem put_cons_of_none (old new : Entry) (hname : old.name = new.name)
    (hnone : find? entries new.name = none) : put (old :: entries) new = new :: entries := by
  have hkept : entries.map (fun entry => if entry.name = new.name then new else entry) =
      entries := by
    refine (List.map_congr_left ?_).trans (List.map_id entries)
    intro entry hentry
    exact if_neg (find?_eq_none.mp hnone entry hentry)
  simp only [put, List.any_cons, hname, decide_true, Bool.true_or, if_true, List.map_cons, hkept]

theorem drop_of_none (hnone : find? entries name = none) : drop entries name = entries := by
  unfold drop
  rw [List.filter_eq_self]
  intro entry hentry
  simpa using find?_eq_none.mp hnone entry hentry

theorem drop_append (entries more : List Entry) (name : Name) :
    drop (entries ++ more) name = drop entries name ++ drop more name :=
  List.filter_append ..

end Entry

namespace Disk

variable {entries : List Entry} {name : Name} {value : File}

theorem at?_root (disk : Disk) : disk.at? [] = some (.directory disk.entries) := rfl

theorem at?_of_none (hnone : Entry.find? entries name = none) :
    (Disk.mk entries).at? [name] = none := by
  simp only [at?, Entry.at?, hnone]

theorem at?_of_file (hfile : Entry.find? entries name = some (.file name value)) :
    (Disk.mk entries).at? [name] = some (.file value) := by
  simp only [at?, Entry.at?, hfile]
  rfl

theorem makeFile_of_none (bytes : ByteArray) (now : Int)
    (hnone : Entry.find? entries name = none) :
    (Disk.mk entries).makeFile [name] bytes now =
      ⟨entries ++ [.file name { content := .plain bytes, modified := now }]⟩ := by
  unfold makeFile
  rw [at?_of_none hnone]
  exact congrArg Disk.mk (Entry.put_of_none hnone)

theorem removeFile_of_file (hfile : Entry.find? entries name = some (.file name value)) :
    (Disk.mk entries).removeFile [name] = ⟨Entry.drop entries name⟩ := by
  unfold removeFile
  rw [at?_of_file hfile]
  rfl

end Disk

end MediaCatalog
