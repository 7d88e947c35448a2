import Mathlib.Data.List.Basic
import MediaCatalog.Disk.Path
import MediaCatalog.Proofs.Text.Utf8

/-!
The names in a path. To join a name to a path puts it behind those that are
there, so a path below a directory tells the directory and the names that lead
on from it, and no two ways lead to one path. A path in absolute form is its own
absolute form, and so is every path below it.
-/

namespace MediaCatalog.Path

/-- A path that has a text is the one with this text. -/
theorem ofText_of_text? {path : Path} {text : String} (htext : path.text? = some text) :
    ofText text = path :=
  congrArg mk (Text.Utf8.encode_of_text? htext)

/-- A name by which a path moves, be it down or up. -/
def IsPart (name : Name) : Prop :=
  name ≠ [] ∧ slash ∉ name ∧ name ≠ dot

variable {path : Path} {name : Name} {names : List Name}

section Parts

theorem parts_append (bytes later : List UInt8) :
    parts ⟨bytes ++ slash :: later⟩ = parts ⟨bytes⟩ ++ parts ⟨later⟩ := by
  have hsplit : (bytes ++ slash :: later).splitOnP (· == slash) =
      bytes.splitOnP (· == slash) ++ later.splitOnP (· == slash) :=
    List.splitOnP_append_cons bytes later (by simp)
  simp only [parts, hsplit, List.filter_append]

theorem parts_empty : parts ⟨[]⟩ = [] := by
  simp [parts]

theorem parts_of_isPart (hname : IsPart name) : parts ⟨name⟩ = [name] := by
  have hsplit : name.splitOnP (· == slash) = [name] := by
    refine List.splitOnP_eq_singleton fun byte hbyte => ?_
    rw [beq_eq_false_iff_ne]
    rintro rfl
    exact hname.2.1 hbyte
  simp [parts, hsplit, hname.1]

theorem endsInSlash_iff : path.endsInSlash = true ↔ ∃ front, path.bytes = front ++ [slash] := by
  simp [endsInSlash, List.getLast?_eq_some_iff]

theorem isAbsolute_iff : path.isAbsolute = true ↔ ∃ rest, path.bytes = slash :: rest := by
  simp [isAbsolute, List.head?_eq_some_iff]

theorem isPart_not_absolute (hname : IsPart name) : (Path.mk name).isAbsolute = false := by
  rw [← Bool.not_eq_true, isAbsolute_iff]
  rintro ⟨rest, rfl⟩
  exact hname.2.1 List.mem_cons_self

/-- Whatever stands before it, a name is parted from it by one slash. -/
theorem join_cases (path : Path) (hname : IsPart name) :
    (path.bytes = [] ∧ path.join ⟨name⟩ = ⟨name⟩) ∨
      (∃ front, path.bytes = front ++ [slash] ∧ path.join ⟨name⟩ = ⟨front ++ slash :: name⟩) ∨
      (path.bytes ≠ [] ∧ path.endsInSlash = false ∧
        path.join ⟨name⟩ = ⟨path.bytes ++ slash :: name⟩) := by
  unfold join
  rw [isPart_not_absolute hname]
  obtain ⟨bytes⟩ := path
  by_cases hempty : bytes = []
  · exact Or.inl ⟨hempty, by simp [hempty]⟩
  · right
    cases hslash : (Path.mk bytes).endsInSlash with
    | true =>
        left
        obtain ⟨front, hfront⟩ := endsInSlash_iff.mp hslash
        refine ⟨front, hfront, ?_⟩
        have hfront : bytes = front ++ [slash] := hfront
        simp [hfront]
    | false => exact Or.inr ⟨hempty, rfl, by simp [hempty]⟩

theorem parts_join (path : Path) (hname : IsPart name) :
    (path.join ⟨name⟩).parts = path.parts ++ [name] := by
  obtain ⟨bytes⟩ := path
  rcases join_cases ⟨bytes⟩ hname with ⟨hempty, hjoined⟩ | ⟨front, hfront, hjoined⟩ |
    ⟨-, -, hjoined⟩
  · obtain rfl : bytes = [] := hempty
    rw [hjoined, parts_of_isPart hname, parts_empty, List.nil_append]
  · obtain rfl : bytes = front ++ [slash] := hfront
    rw [hjoined, parts_append, parts_append, parts_of_isPart hname, parts_empty, List.append_nil]
  · rw [hjoined, parts_append, parts_of_isPart hname]

theorem names_join (path : Path) (hname : IsPart name) :
    (path.join ⟨name⟩).names = path.names ++ [name] := by
  rw [names, parts_join path hname, List.filter_append]
  simp [names, hname.2.2]

theorem isAbsolute_join (path : Path) (hname : IsPart name) :
    (path.join ⟨name⟩).isAbsolute = path.isAbsolute := by
  obtain ⟨bytes⟩ := path
  rcases join_cases ⟨bytes⟩ hname with ⟨hempty, hjoined⟩ | ⟨front, hfront, hjoined⟩ |
    ⟨hsome, -, hjoined⟩
  · obtain rfl : bytes = [] := hempty
    rw [hjoined, isPart_not_absolute hname]
    rfl
  · obtain rfl : bytes = front ++ [slash] := hfront
    rw [hjoined]
    cases front <;> rfl
  · rw [hjoined]
    cases bytes with
    | nil => exact absurd rfl hsome
    | cons => rfl

theorem startsInDot_join (path : Path) (hname : IsPart name) :
    (path.join ⟨name⟩).startsInDot = path.startsInDot := by
  rw [startsInDot, startsInDot, isAbsolute_join path hname, parts_join path hname]
  cases path.parts with
  | nil => simp [hname.2.2]
  | cons => rfl

end Parts

section Joined

variable (hnames : ∀ name ∈ names, IsPart name)

include hnames

/-- The names on the way are put behind those that are there. -/
theorem names_joinNames (path : Path) : (path.joinNames names).names = path.names ++ names := by
  induction names generalizing path with
  | nil => simp [joinNames]
  | cons name rest ih =>
      change ((path.join ⟨name⟩).joinNames rest).names = _
      rw [ih fun other hother => hnames other (List.mem_cons_of_mem _ hother),
        names_join path (hnames name List.mem_cons_self), List.append_assoc, List.singleton_append]

theorem isAbsolute_joinNames (path : Path) :
    (path.joinNames names).isAbsolute = path.isAbsolute := by
  induction names generalizing path with
  | nil => rfl
  | cons name rest ih =>
      change ((path.join ⟨name⟩).joinNames rest).isAbsolute = _
      rw [ih fun other hother => hnames other (List.mem_cons_of_mem _ hother),
        isAbsolute_join path (hnames name List.mem_cons_self)]

theorem startsInDot_joinNames (path : Path) :
    (path.joinNames names).startsInDot = path.startsInDot := by
  induction names generalizing path with
  | nil => rfl
  | cons name rest ih =>
      change ((path.join ⟨name⟩).joinNames rest).startsInDot = _
      rw [ih fun other hother => hnames other (List.mem_cons_of_mem _ hother),
        startsInDot_join path (hnames name List.mem_cons_self)]

end Joined

theorem joinNames_append (path : Path) (names later : List Name) :
    path.joinNames (names ++ later) = (path.joinNames names).joinNames later :=
  List.foldl_append

/-- Two ways on from a directory lead to different paths. -/
theorem joinNames_injective {other : List Name} (hnames : ∀ name ∈ names, IsPart name)
    (hother : ∀ name ∈ other, IsPart name) (path : Path)
    (hsame : path.joinNames names = path.joinNames other) : names = other := by
  have hboth := congrArg Path.names hsame
  rw [names_joinNames hnames, names_joinNames hother] at hboth
  exact List.append_cancel_left hboth

section Ends

theorem slash_not_mem_of_split {bytes part : List UInt8}
    (hpart : part ∈ bytes.splitOnP (· == slash)) : slash ∉ part := by
  induction bytes generalizing part with
  | nil =>
      obtain rfl : part = [] := by simpa using hpart
      exact List.not_mem_nil
  | cons byte rest ih =>
      rw [List.splitOnP_cons_eq_if_modifyHead] at hpart
      split at hpart
      · rcases List.mem_cons.mp hpart with rfl | hlater
        · exact List.not_mem_nil
        · exact ih hlater
      · rename_i hbyte
        cases hrest : rest.splitOnP (· == slash) with
        | nil => simp [hrest] at hpart
        | cons first later =>
            rw [hrest] at hpart ih
            rcases List.mem_cons.mp hpart with rfl | hlater
            · have hne : ¬ slash = byte := fun hsame => hbyte (by simp [hsame])
              simpa [hne] using ih List.mem_cons_self
            · exact ih (List.mem_cons_of_mem _ hlater)

/-- What a path is split into are names. -/
theorem isPart_of_mem_names (hname : name ∈ path.names) : IsPart name := by
  simp only [names, parts, List.mem_filter, decide_eq_true_eq] at hname
  obtain ⟨⟨hpart, hsome⟩, hdot⟩ := hname
  exact ⟨by simpa using hsome, slash_not_mem_of_split hpart, hdot⟩

/-- The last name is that of the file, unless it leads back up. -/
theorem fileName?_join (path : Path) (hname : IsPart name) (hdown : name ≠ dotDot) :
    (path.join ⟨name⟩).fileName? = some name := by
  simp [fileName?, names_join path hname, hdown]

theorem names_leading (path : Path) (names : List Name) : (path.leading names).names = [] := by
  unfold leading
  repeat' split
  all_goals decide +kernel

/-- A path and what it starts with agree on where they begin. -/
theorem leading_begins (path : Path) (names : List Name) :
    (path.leading names).isAbsolute = path.isAbsolute ∧
      (path.leading names).startsInDot = path.startsInDot := by
  unfold leading
  cases hdot : path.startsInDot with
  | true =>
      have habsolute : path.isAbsolute = false := by
        rw [startsInDot, Bool.and_eq_true, Bool.not_eq_true'] at hdot
        exact hdot.1
      rw [habsolute, if_pos rfl]
      decide +kernel
  | false =>
      cases habsolute : path.isAbsolute with
      | false =>
          simp only [Bool.not_false, Bool.false_eq_true, if_false, if_true]
          decide +kernel
      | true =>
          simp only [Bool.not_true, Bool.false_eq_true, if_false]
          split <;> decide +kernel

theorem parent?_begins {parent : Path} (hparent : path.parent? = some parent)
    (hsome : path.names ≠ []) :
    parent.names = path.names.dropLast ∧ parent.isAbsolute = path.isAbsolute ∧
      parent.startsInDot = path.startsInDot := by
  have hempty : path.names.isEmpty = false := by simpa using hsome
  unfold parent? at hparent
  rw [hempty] at hparent
  obtain rfl := Option.some.inj hparent
  have hparts : ∀ name ∈ path.names.dropLast, IsPart name :=
    fun name hname => isPart_of_mem_names (List.dropLast_subset _ hname)
  obtain ⟨habsolute, hdot⟩ := path.leading_begins path.names.dropLast
  rw [names_joinNames hparts, names_leading, isAbsolute_joinNames hparts,
    startsInDot_joinNames hparts]
  exact ⟨List.nil_append _, habsolute, hdot⟩

end Ends

section Whole

/-- The path is absolute, and is its own absolute form wherever one is. -/
def Whole (path : Path) : Prop :=
  path.isAbsolute = true ∧ ∀ here, absolute? here path = some path

/-- Where the absolute form of an absolute path starts. -/
def top (path : Path) : Path :=
  if path.startsWithTwoSlashes then ⟨[slash, slash]⟩ else ⟨[slash]⟩

theorem absolute?_of_isAbsolute (habsolute : path.isAbsolute = true) (here : Path) :
    absolute? here path =
      some (if path.endsInSlash && !(path.top.joinNames path.names).endsInSlash then
        ⟨(path.top.joinNames path.names).bytes ++ [slash]⟩
      else path.top.joinNames path.names) := by
  obtain ⟨rest, hrest⟩ := isAbsolute_iff.mp habsolute
  have hsome : path.bytes.isEmpty = false := by rw [hrest]; rfl
  simp only [absolute?, hsome, Bool.false_eq_true, if_false, habsolute, if_true, top]
  split <;> exact (apply_ite some _ _ _).symm

/-- A slash at the start counts together with a second only if no third follows,
and none follows where a name does. -/
theorem startsWithTwoSlashes_join (habsolute : path.isAbsolute = true) (hname : IsPart name) :
    (path.join ⟨name⟩).startsWithTwoSlashes = path.startsWithTwoSlashes := by
  obtain ⟨bytes⟩ := path
  obtain ⟨rest, hrest⟩ := isAbsolute_iff.mp habsolute
  obtain rfl : bytes = slash :: rest := hrest
  obtain ⟨first, later, rfl⟩ := List.exists_cons_of_ne_nil hname.1
  have hfirst : first ≠ slash := fun hslash => hname.2.1 (by simp [hslash])
  have hjoined : (Path.mk (slash :: rest)).join ⟨first :: later⟩ =
      if (Path.mk (slash :: rest)).endsInSlash then ⟨slash :: rest ++ first :: later⟩
      else ⟨slash :: rest ++ slash :: first :: later⟩ := by
    simp [join, isPart_not_absolute hname]
  rw [hjoined]
  match rest with
  | [] => simp [endsInSlash, startsWithTwoSlashes, hfirst]
  | [second] =>
      by_cases hsecond : second = slash
      · simp [endsInSlash, startsWithTwoSlashes, hsecond, hfirst, bne]
      · simp [endsInSlash, startsWithTwoSlashes, hsecond]
  | second :: third :: rest => split <;> simp [startsWithTwoSlashes]

theorem top_join (habsolute : path.isAbsolute = true) (hname : IsPart name) :
    (path.join ⟨name⟩).top = path.top := by
  rw [top, top, startsWithTwoSlashes_join habsolute hname]

/-- What a path is put together from, but for a slash at its end. -/
def bare (path : Path) : Path :=
  path.top.joinNames path.names

theorem whole_iff : path.Whole ↔ path.isAbsolute = true ∧
    (path = path.bare ∨ path.bare.endsInSlash = false ∧ path = ⟨path.bare.bytes ++ [slash]⟩) := by
  refine and_congr_right fun habsolute => ?_
  have hform : (∀ here, absolute? here path = some path) ↔
      (if path.endsInSlash && !path.bare.endsInSlash then ⟨path.bare.bytes ++ [slash]⟩
        else path.bare) = path := by
    simp only [absolute?_of_isAbsolute habsolute, Option.some.injEq]
    exact ⟨fun hall => hall path, fun hone _ => hone⟩
  rw [hform]
  constructor
  · intro hsame
    split at hsame
    · rename_i hslash
      simp only [Bool.and_eq_true, Bool.not_eq_true'] at hslash
      exact Or.inr ⟨hslash.2, hsame.symm⟩
    · exact Or.inl hsame.symm
  · rintro (hbare | ⟨hslash, hsame⟩)
    · rw [← hbare]
      simp
    · have hends : path.endsInSlash = true := endsInSlash_iff.mpr ⟨_, congrArg bytes hsame⟩
      simp only [hends, hslash, Bool.not_false, Bool.and_self, if_true]
      exact hsame.symm

theorem isAbsolute_bare (path : Path) : path.bare.isAbsolute = true := by
  rw [bare, isAbsolute_joinNames fun name hname => isPart_of_mem_names hname, top]
  split <;> rfl

/-- A slash at the end is the one that a name would get before it. -/
theorem join_slash (habsolute : path.isAbsolute = true) (hends : path.endsInSlash = false)
    (hname : IsPart name) : (Path.mk (path.bytes ++ [slash])).join ⟨name⟩ = path.join ⟨name⟩ := by
  obtain ⟨rest, hrest⟩ := isAbsolute_iff.mp habsolute
  have hsome : path.bytes ≠ [] := by simp [hrest]
  have hslash : (Path.mk (path.bytes ++ [slash])).endsInSlash = true :=
    endsInSlash_iff.mpr ⟨_, rfl⟩
  simp [join, isPart_not_absolute hname, hends, hslash, hsome]

theorem bare_join (habsolute : path.isAbsolute = true) (hname : IsPart name) :
    (path.join ⟨name⟩).bare = path.bare.join ⟨name⟩ := by
  rw [bare, top_join habsolute hname, names_join path hname, joinNames_append]
  rfl

theorem whole_join (hwhole : path.Whole) (hname : IsPart name) : (path.join ⟨name⟩).Whole := by
  obtain ⟨habsolute, hform⟩ := whole_iff.mp hwhole
  refine whole_iff.mpr ⟨(isAbsolute_join path hname).trans habsolute, Or.inl ?_⟩
  rw [bare_join habsolute hname]
  rcases hform with hbare | ⟨hslash, hform⟩
  · exact congrArg (fun path => join path ⟨name⟩) hbare
  · conv_lhs => rw [hform]
    exact join_slash (isAbsolute_bare path) hslash hname

theorem whole_joinNames (hwhole : path.Whole) (hnames : ∀ name ∈ names, IsPart name) :
    (path.joinNames names).Whole := by
  induction names generalizing path with
  | nil => exact hwhole
  | cons name rest ih =>
      exact ih (whole_join hwhole (hnames name List.mem_cons_self))
        fun other hother => hnames other (List.mem_cons_of_mem _ hother)

theorem bare_slash (habsolute : path.isAbsolute = true) (hends : path.endsInSlash = false) :
    bare ⟨path.bytes ++ [slash]⟩ = path.bare := by
  have hnames : names ⟨path.bytes ++ [slash]⟩ = path.names := by
    rw [names, parts_append, parts_empty, List.append_nil, names]
  have htop : startsWithTwoSlashes ⟨path.bytes ++ [slash]⟩ = path.startsWithTwoSlashes := by
    obtain ⟨bytes⟩ := path
    obtain ⟨rest, hrest⟩ := isAbsolute_iff.mp habsolute
    obtain rfl : bytes = slash :: rest := hrest
    match rest with
    | [] => exact absurd hends (by decide)
    | [second] =>
        have hsecond : second ≠ slash := by simpa [endsInSlash] using hends
        simp [startsWithTwoSlashes, hsecond]
    | second :: third :: rest => simp [startsWithTwoSlashes]
  rw [bare, bare, top, top, htop, hnames]

theorem whole_slash (hwhole : path.Whole) (hends : path.endsInSlash = false) :
    Whole ⟨path.bytes ++ [slash]⟩ := by
  obtain ⟨habsolute, hform⟩ := whole_iff.mp hwhole
  have hbare : path = path.bare := by
    rcases hform with hbare | ⟨-, hslash⟩
    · exact hbare
    · have hslash : path.endsInSlash = true := endsInSlash_iff.mpr ⟨_, congrArg bytes hslash⟩
      simp [hslash] at hends
  have habove : isAbsolute ⟨path.bytes ++ [slash]⟩ = true := by
    obtain ⟨rest, hrest⟩ := isAbsolute_iff.mp habsolute
    exact isAbsolute_iff.mpr ⟨rest ++ [slash], by rw [hrest]; rfl⟩
  refine whole_iff.mpr ⟨habove, Or.inr ?_⟩
  rw [bare_slash habsolute hends, ← hbare]
  exact ⟨hends, rfl⟩

theorem whole_of_absolute? {here root : Path} (hhere : here.Whole)
    (hroot : absolute? here path = some root) : root.Whole := by
  unfold absolute? at hroot
  split at hroot
  · cases hroot
  · extract_lets start whole at hroot
    have hstart : start.Whole := by
      unfold start
      split
      · exact whole_iff.mpr ⟨rfl, Or.inl (by decide +kernel)⟩
      · split
        · exact whole_iff.mpr ⟨rfl, Or.inl (by decide +kernel)⟩
        · exact hhere
    have hwhole : whole.Whole := whole_joinNames hstart fun name hname => isPart_of_mem_names hname
    split at hroot
    · rename_i hends
      simp only [Bool.and_eq_true, Bool.not_eq_true'] at hends
      obtain rfl := Option.some.inj hroot
      exact whole_slash hwhole hends.2
    · obtain rfl := Option.some.inj hroot
      exact hwhole

end Whole

end MediaCatalog.Path
