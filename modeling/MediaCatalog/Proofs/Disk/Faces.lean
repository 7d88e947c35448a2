import Mathlib.Data.List.Basic
import MediaCatalog.Proofs.Disk.Companions

/-!
What is seen at a place: nothing, a directory, or a file. What is in a directory
is seen at the places below it, so to set or remove a file changes what is seen
at its own place alone. To follow a path one needs to see no more than this: each
part leads on from a directory to where there is something.
-/

namespace MediaCatalog

open Text

/-- The file that there is, unless it is a directory. -/
def Node.file? : Node → Option File
  | .file value => some value
  | .directory _ => none

namespace Entry

/-- What is seen at a place: nothing, a directory, or a file. -/
def face? (entries : List Entry) (place : Place) : Option (Option File) :=
  (at? entries place).map Node.file?

variable {entries : List Entry} {name : Name}

@[simp] theorem face?_root (entries : List Entry) : face? entries [] = some none := rfl

theorem face?_inside (entries : List Entry) (first : Name) {below : Place} (hbelow : below ≠ []) :
    face? entries (first :: below) = face? (inside entries first) below :=
  congrArg (Option.map Node.file?) (at?_inside entries first hbelow)

/-- Only the first name tells which entry is seen. -/
theorem face?_congr {other : List Entry} (hfound : find? entries name = find? other name)
    (below : Place) : face? entries (name :: below) = face? other (name :: below) := by
  unfold face?
  rw [at?, at?, hfound]

theorem face?_setAt_inside (entries : List Entry) (node : Option Node) (first : Name)
    {below : Place} (hbelow : below ≠ []) (place : Place) :
    face? (setAt entries node (first :: below)) (first :: place) =
      face? (setAt (inside entries first) node below) place :=
  congrArg (Option.map Node.file?) (at?_setAt_inside entries node first hbelow place)

/-- Whatever is seen below an entry is in a directory. -/
theorem face?_first {first : Name} {below : Place} (hbelow : below ≠ [])
    (hsome : face? entries (first :: below) ≠ none) : face? entries [first] = some none := by
  obtain ⟨next, below, rfl⟩ := List.exists_cons_of_ne_nil hbelow
  unfold face? at hsome ⊢
  rw [at?] at hsome ⊢
  split at hsome
  · rfl
  · exact absurd rfl hsome
  · exact absurd rfl hsome

theorem face?_front {front : Place} (hsome : face? entries (front ++ [name]) ≠ none) :
    face? entries front = some none := by
  induction front generalizing entries with
  | nil => rfl
  | cons first front ih =>
      rw [List.cons_append] at hsome
      cases front with
      | nil => exact face?_first (by simp) hsome
      | cons next front =>
          rw [face?_inside entries first (by simp)] at hsome ⊢
          exact ih hsome

theorem find?_drop_self (entries : List Entry) (name : Name) :
    find? (drop entries name) name = none := by
  simp [find?, drop]

/-- What is seen in a directory once a file was set or removed in it, where no
directory was. -/
theorem face?_setName (file : Option File) (hnot : face? entries [name] ≠ some none)
    (other : Place) :
    face? (setAt entries (file.map .file) [name]) other =
      if other = [name] then file.map some else face? entries other := by
  cases other with
  | nil => rfl
  | cons first below =>
      by_cases hfirst : name = first
      · subst hfirst
        have hself : find? (setAt entries (file.map .file) [name]) name =
            file.map (.file name) := by
          cases file with
          | none => exact find?_drop_self entries name
          | some value => exact find?_put_self entries (.file name value)
        have hold : ∀ own inner, find? entries name ≠ some (.directory own inner) := by
          intro own inner hfound
          exact hnot (by simp [face?, at?, hfound, Node.file?])
        cases below with
        | nil =>
            rw [if_pos rfl, face?, at?, hself]
            cases file <;> rfl
        | cons next below =>
            rw [if_neg (by simp), face?, face?, at?, at?, hself]
            cases file <;> cases hfound : find? entries name with
            | none => rfl
            | some entry =>
                cases entry with
                | file => rfl
                | directory own inner => exact absurd hfound (hold own inner)
      · rw [if_neg (by simp [Ne.symm hfirst])]
        refine face?_congr ?_ below
        cases file with
        | none => exact find?_drop_ne entries hfirst
        | some value => exact find?_put_ne entries _ hfirst

/-- The induction is on the names that lead to the directory. -/
theorem face?_setAt (file : Option File) {front : Place} (hfront : face? entries front = some none)
    (hnot : face? entries (front ++ [name]) ≠ some none) (other : Place) :
    face? (setAt entries (file.map .file) (front ++ [name])) other =
      if other = front ++ [name] then file.map some else face? entries other := by
  induction front generalizing entries other with
  | nil => exact face?_setName file hnot other
  | cons first front ih =>
      have hbelow : front ++ [name] ≠ [] := by simp
      have hinner : face? (inside entries first) front = some none := by
        cases front with
        | nil => rfl
        | cons next front => rwa [face?_inside entries first (by simp)] at hfront
      rw [List.cons_append, face?_inside entries first hbelow] at hnot
      rw [List.cons_append]
      cases other with
      | nil => rfl
      | cons start below =>
          by_cases hstart : first = start
          · subst hstart
            rw [face?_setAt_inside entries _ first hbelow, ih hinner hnot below]
            cases below with
            | nil =>
                have hfirst : face? entries [first] = some none := by
                  cases front with
                  | nil => exact hfront
                  | cons next front =>
                      exact face?_first (List.cons_ne_nil next front) (by simp [hfront])
                simp [hfirst]
            | cons next below =>
                rw [face?_inside entries first (by simp)]
                simp only [List.cons.injEq, true_and]
          · rw [if_neg (by simp [Ne.symm hstart])]
            refine face?_congr ?_ below
            obtain ⟨next, rest, hnext⟩ := List.exists_cons_of_ne_nil hbelow
            rw [hnext]
            exact find?_put_ne entries _ hstart

theorem find?_of_directory {place : Place} {inner : List Entry}
    (hat : at? entries place = some (.directory inner)) (name : Name) :
    (find? inner name).isSome = (face? entries (place ++ [name])).isSome := by
  induction place generalizing entries with
  | nil =>
      obtain rfl : entries = inner := by simpa [at?] using hat
      rw [List.nil_append, face?, at?]
      cases hfound : find? entries name with
      | none => rfl
      | some entry => cases entry <;> rfl
  | cons first place ih =>
      rw [at?] at hat
      rw [List.cons_append, face?, at?]
      split at hat
      · exact ih hat
      · split at hat <;> cases hat
      · cases hat

end Entry

/-- Where a part of a path leads. -/
def Place.next (place : Place) (part : Name) : Place :=
  if part = Path.dot then place
  else if part = Path.dotDot then place.dropLast
  else place ++ [part]

namespace Disk

/-- What is seen at a place of the disk. -/
def face? (disk : Disk) (place : Place) : Option (Option File) :=
  Entry.face? disk.entries place

variable {disk : Disk} {place next : Place} {part : Name}

theorem face?_eq_none : disk.face? place = none ↔ disk.at? place = none := by
  simp [face?, Entry.face?, at?]

theorem face?_eq_file {file : File} :
    disk.face? place = some (some file) ↔ disk.at? place = some (.file file) := by
  unfold face? Entry.face? at?
  cases Entry.at? disk.entries place with
  | none => simp
  | some node => cases node <;> simp [Node.file?]

theorem face?_eq_directory :
    disk.face? place = some none ↔ ∃ entries, disk.at? place = some (.directory entries) := by
  unfold face? Entry.face? at?
  cases Entry.at? disk.entries place with
  | none => simp
  | some node => cases node <;> simp [Node.file?]

theorem face?_dropLast (hsome : disk.face? place ≠ none) :
    disk.face? place.dropLast = some none := by
  rcases List.eq_nil_or_concat' place with rfl | ⟨front, name, rfl⟩
  · rfl
  · rw [List.dropLast_concat]
    exact Entry.face?_front hsome

/-- To see anything one has to be in a directory, and files have nothing below
them, so what is seen changes at one place alone. -/
theorem face?_setFile (file : Option File) {front : Place} {name : Name}
    (hfront : disk.face? front = some none) (hnot : disk.face? (front ++ [name]) ≠ some none)
    (other : Place) :
    (disk.setAt (front ++ [name]) (file.map .file)).face? other =
      if other = front ++ [name] then file.map some else disk.face? other :=
  Entry.face?_setAt file hfront hnot other

theorem step_of_directory (hface : disk.face? place = some none) (part : Name) :
    disk.step place part =
      if nameBytes < part.length then .error .nameTooLong
      else if disk.face? (place.next part) = none then .error .notFound
      else .ok (place.next part) := by
  obtain ⟨entries, hat⟩ := face?_eq_directory.mp hface
  have hfound : (Entry.find? entries part).isSome = (disk.face? (place ++ [part])).isSome :=
    Entry.find?_of_directory hat part
  simp only [step, hat]
  by_cases hdot : part = Path.dot
  · have hshort : ¬ nameBytes < part.length := by rw [hdot]; decide
    have hnext : place.next part = place := if_pos hdot
    rw [if_pos hdot, if_neg hshort, hnext, if_neg (by simp [hface])]
  by_cases hup : part = Path.dotDot
  · have hshort : ¬ nameBytes < part.length := by rw [hup]; decide
    have hnext : place.next part = place.dropLast := (if_neg hdot).trans (if_pos hup)
    have hback : disk.face? place.dropLast = some none := face?_dropLast (by simp [hface])
    rw [if_neg hdot, if_pos hup, if_neg hshort, hnext, if_neg (by simp [hback])]
  · have hnext : place.next part = place ++ [part] := (if_neg hdot).trans (if_neg hup)
    rw [if_neg hdot, if_neg hup, hnext, hfound]
    cases disk.face? (place ++ [part]) <;> rfl

/-- A part leads on if one is in a directory, the part is not too long, and there
is something. -/
theorem step_eq_ok :
    disk.step place part = .ok next ↔
      disk.face? place = some none ∧ part.length ≤ nameBytes ∧ next = place.next part ∧
        disk.face? next ≠ none := by
  by_cases hface : disk.face? place = some none
  · rw [step_of_directory hface]
    simp only [hface, true_and]
    split
    · rename_i hlong
      simp [Nat.not_le.mpr hlong]
    · rename_i hshort
      split
      · rename_i hnone
        simp only [reduceCtorEq, false_iff]
        rintro ⟨-, rfl, hsome⟩
        exact hsome hnone
      · rename_i hsome
        rw [Except.ok.injEq]
        constructor
        · rintro rfl
          exact ⟨Nat.le_of_not_lt hshort, rfl, hsome⟩
        · exact fun ⟨_, hnext, _⟩ => hnext.symm
  · simp only [hface, false_and, iff_false]
    unfold step
    split
    · rename_i entries hat
      exact absurd (face?_eq_directory.mpr ⟨entries, hat⟩) hface
    · exact fun hstep => nomatch hstep
    · exact fun hstep => nomatch hstep

/-- The place that a path is followed from. -/
def startOf (here path : Path) : Place :=
  if path.isAbsolute then [] else here.names

variable {here path : Path}

/-- What a slash at the end of a path asks of the place where it leads. -/
theorem slash_eq_ok {found : Place} (slash : Bool) :
    (do
      if slash then
        if let some (.file _) := disk.at? found then throw .notDirectory
      return found : Except DiskFault Place) = .ok place ↔
        found = place ∧ (slash = true → ∀ file, disk.face? place ≠ some (some file)) := by
  have hanswer : (pure found : Except DiskFault Place) = .ok place ↔ found = place :=
    Except.ok.injEq found place ▸ Iff.rfl
  cases slash with
  | false => simpa using hanswer
  | true =>
      cases hface : disk.face? found with
      | none =>
          rw [if_pos rfl, face?_eq_none.mp hface]
          refine hanswer.trans (and_iff_left_of_imp ?_).symm
          rintro rfl - file
          simp [hface]
      | some seen =>
          cases seen with
          | none =>
              obtain ⟨entries, hat⟩ := face?_eq_directory.mp hface
              rw [if_pos rfl, hat]
              refine hanswer.trans (and_iff_left_of_imp ?_).symm
              rintro rfl - file
              simp [hface]
          | some file =>
              rw [if_pos rfl, face?_eq_file.mp hface]
              refine iff_of_false (fun hthrown => nomatch hthrown) ?_
              rintro ⟨rfl, hnot⟩
              exact hnot rfl file hface

theorem place?_eq_ok :
    disk.place? here path = .ok place ↔
      path.bytes.isEmpty = false ∧ path.bytes.contains 0 = false ∧ path.bytes.length < pathBytes ∧
        path.parts.foldlM disk.step (startOf here path) = .ok place ∧
        (path.endsInSlash = true → ∀ file, disk.face? place ≠ some (some file)) := by
  unfold place?
  cases path.bytes.isEmpty with
  | true => simp [bind, Except.bind, throw, throwThe, MonadExceptOf.throw]
  | false =>
      cases path.bytes.contains 0 with
      | true => simp [bind, Except.bind, throw, throwThe, MonadExceptOf.throw]
      | false =>
          by_cases hlong : pathBytes ≤ path.bytes.length
          · have hnot := Nat.not_lt.mpr hlong
            simp [bind, Except.bind, throw, throwThe, MonadExceptOf.throw, hlong, hnot]
          · have hstart : (if path.isAbsolute = true then [] else here.names) =
                startOf here path := rfl
            simp only [Bool.false_eq_true, if_false, hlong, hstart, true_and,
              Nat.lt_of_not_le hlong]
            cases path.parts.foldlM disk.step (startOf here path) with
            | error fault => simp [bind, Except.bind]
            | ok found =>
                rw [Except.ok.injEq]
                exact slash_eq_ok path.endsInSlash

theorem find?_eq_ok {node : Node} :
    disk.find? here path = .ok node ↔
      ∃ place, disk.place? here path = .ok place ∧ disk.at? place = some node := by
  unfold find?
  cases disk.place? here path with
  | error fault => simp [bind, Except.bind]
  | ok found =>
      cases hat : disk.at? found <;>
        simp [hat, bind, Except.bind, pure, Except.pure, throw, throwThe, MonadExceptOf.throw]

theorem present_iff :
    disk.present here path = true ↔
      ∃ place, disk.place? here path = .ok place ∧ disk.face? place ≠ none := by
  have hfound : disk.present here path = true ↔ ∃ node, disk.find? here path = .ok node := by
    unfold present
    cases disk.find? here path <;> simp [Except.isOk, Except.toBool]
  simp only [hfound, find?_eq_ok, ne_eq, face?_eq_none, ← Option.isSome_iff_ne_none,
    Option.isSome_iff_exists]
  exact ⟨fun ⟨node, place, hplace, hat⟩ => ⟨place, hplace, node, hat⟩,
    fun ⟨place, hplace, node, hat⟩ => ⟨node, place, hplace, hat⟩⟩

/-- The size and time of what is seen. -/
def statOf : Option File → Stat
  | some file => ⟨.ofNat file.content.toBytes.size, file.modified⟩
  | none => ⟨4096, 0⟩

theorem stat_eq_ok {stat : Stat} :
    disk.stat here path = .ok stat ↔
      ∃ place face, disk.place? here path = .ok place ∧ disk.face? place = some face ∧
        stat = statOf face := by
  have hfound : disk.stat here path = .ok stat ↔
      ∃ node, disk.find? here path = .ok node ∧ stat = statOf node.file? := by
    unfold Disk.stat
    cases disk.find? here path with
    | error fault => simp [bind, Except.bind]
    | ok node =>
        cases node <;>
          simp [bind, Except.bind, pure, Except.pure, statOf, Node.file?, eq_comm]
  simp only [hfound, find?_eq_ok, face?, Entry.face?, Option.map_eq_some_iff]
  constructor
  · rintro ⟨node, ⟨place, hplace, hat⟩, hstat⟩
    exact ⟨place, _, hplace, ⟨node, hat, rfl⟩, hstat⟩
  · rintro ⟨place, _, hplace, ⟨node, hat, rfl⟩, hstat⟩
    exact ⟨node, ⟨place, hplace, hat⟩, hstat⟩

theorem present_of_stat {stat : Stat} (hstat : disk.stat here path = .ok stat) :
    disk.present here path = true := by
  obtain ⟨place, face, hplace, hface, -⟩ := stat_eq_ok.mp hstat
  exact present_iff.mpr ⟨place, hplace, by simp [hface]⟩

end Disk

end MediaCatalog
