import Mathlib.Data.List.Basic
import Mathlib.Data.Nat.Notation

/-!
# Unix paths as lists of characters

The part of Rust's `std::path` that the programs below use: paths are compared by
their components, a file name is split at its last dot, and `set_extension` edits the
text of the path. A path that ends in a file name is a directory and a name
(`inDir`); on such paths each operation is an operation on the name.
-/

namespace IdaHeadless.Paths

abbrev Path := List Char

variable {p q : Path} {name name' stem ext : List Char} {dir dir' : Option Path}

/-! ### Components -/

/- The text up to the first separator, and the texts after each separator. -/
def pieces : Path → List Char × List (List Char)
  | [] => ([], [])
  | c :: cs =>
    if c = '/' then ([], (pieces cs).1 :: (pieces cs).2)
    else (c :: (pieces cs).1, (pieces cs).2)

/- Empty pieces and `.` are normalized away, but not a `.` at the beginning. -/
def kept (piece : List Char) : Bool := piece ≠ [] && piece ≠ ['.']

def components (p : Path) : List (List Char) :=
  if (pieces p).1 = ['.'] then (pieces p).1 :: (pieces p).2.filter kept
  else ((pieces p).1 :: (pieces p).2).filter kept

def rooted (p : Path) : Bool := p.head? = some '/'

/- `==` of `Path`. -/
def same (p q : Path) : Bool := rooted p = rooted q && components p = components q

theorem same_refl (p : Path) : same p p = true := by simp [same]

theorem same_comm (p q : Path) : same p q = same q p := by
  simp only [same, eq_comm]

theorem pieces_append_sep (p : Path) (cs : List Char) :
    pieces (p ++ '/' :: cs) =
      ((pieces p).1, (pieces p).2 ++ (pieces cs).1 :: (pieces cs).2) := by
  induction p with
  | nil => simp [pieces]
  | cons c p ih =>
    by_cases hc : c = '/'
    · simp [pieces, hc, ih]
    · simp [pieces, hc, ih]

theorem pieces_of_no_sep (h : '/' ∉ name) : pieces name = (name, []) := by
  induction name with
  | nil => rfl
  | cons c name ih =>
    have hc : c ≠ '/' := fun he => h (by simp [he])
    have hrest : '/' ∉ name := fun hmem => h (List.mem_cons_of_mem c hmem)
    simp [pieces, hc, ih hrest]

/-! ### Directory and name -/

/- The text of a `Component::Normal`. -/
def Normal (name : List Char) : Prop :=
  '/' ∉ name ∧ name ≠ [] ∧ name ≠ ['.'] ∧ name ≠ ['.', '.']

instance (name : List Char) : Decidable (Normal name) :=
  inferInstanceAs (Decidable (_ ∧ _ ∧ _ ∧ _))

def inDir (dir : Option Path) (name : List Char) : Path :=
  match dir with
  | none => name
  | some d => d ++ '/' :: name

def dirComponents (dir : Option Path) : List (List Char) := dir.elim [] components

theorem components_piece (hsep : '/' ∉ name) (hempty : name ≠ []) (hdot : name ≠ ['.']) :
    components (inDir dir name) = dirComponents dir ++ [name] := by
  have hkept : kept name = true := by simp [kept, hempty, hdot]
  cases dir with
  | none => simp [inDir, dirComponents, components, pieces_of_no_sep hsep, hdot, hkept]
  | some d =>
    simp only [inDir, dirComponents, components, pieces_append_sep, pieces_of_no_sep hsep,
      Option.elim_some]
    split
    · simp [hkept]
    · rw [← List.cons_append, List.filter_append]
      simp [hkept]

theorem components_inDir (h : Normal name) :
    components (inDir dir name) = dirComponents dir ++ [name] :=
  components_piece h.1 h.2.1 h.2.2.1

theorem rooted_inDir (h : Normal name) (h' : Normal name') :
    rooted (inDir dir name) = rooted (inDir dir name') := by
  have hfirst : ∀ n, Normal n → n.head? ≠ some '/' := by
    intro n hn hhead
    exact hn.1 (List.mem_of_mem_head? hhead)
  cases dir with
  | none => simp [inDir, rooted, hfirst name h, hfirst name' h']
  | some d =>
    cases d with
    | nil => rfl
    | cons c d => rfl

/- Equal paths that end in a name have the same name, and stay equal under a new one. -/
theorem same_inDir (h : Normal name) (h' : Normal name') :
    same (inDir dir name) (inDir dir' name') = true ↔
      name = name' ∧ same (inDir dir name) (inDir dir' name) = true := by
  have hcomp : ∀ n, Normal n → (components (inDir dir name) = components (inDir dir' n) ↔
      dirComponents dir = dirComponents dir' ∧ name = n) := by
    intro n hn
    rw [components_inDir h, components_inDir hn]
    constructor
    · intro heq
      obtain ⟨hdir, hname⟩ := List.append_inj' heq rfl
      exact ⟨hdir, List.singleton_inj.mp hname⟩
    · rintro ⟨hdir, rfl⟩
      rw [hdir]
  simp only [same, Bool.and_eq_true, decide_eq_true_eq, hcomp name' h', hcomp name h,
    rooted_inDir h' h]
  tauto

theorem same_inDir_rename (h : Normal name) (h' : Normal name')
    (hsame : same (inDir dir name) (inDir dir' name) = true) :
    same (inDir dir name') (inDir dir' name') = true := by
  simp only [same, Bool.and_eq_true, decide_eq_true_eq, components_inDir h,
    components_inDir h'] at hsame ⊢
  refine ⟨?_, ?_⟩
  · rw [rooted_inDir h' h, hsame.1, rooted_inDir h h']
  · rw [(List.append_inj' hsame.2 rfl).1]

/-! ### File name, stem and extension -/

def fileName (p : Path) : Option (List Char) :=
  (components p).getLast?.bind fun last => if Normal last then some last else none

/- `rsplitn(2, '.')`: the text before and after the last dot. -/
def lastDot : List Char → Option (List Char × List Char)
  | [] => none
  | c :: cs =>
    match lastDot cs with
    | some (before, after) => some (c :: before, after)
    | none => if c = '.' then some ([], cs) else none

/- `rsplit_file_at_dot`: a dot at the beginning splits nothing. -/
def splitName (name : List Char) : List Char × Option (List Char) :=
  match lastDot name with
  | some (before, after) => if before = [] then (name, none) else (before, some after)
  | none => (name, none)

def stemOf (name : List Char) : List Char := (splitName name).1
def extensionOf (name : List Char) : Option (List Char) := (splitName name).2

/- `Path::extension`. -/
def extension (p : Path) : Option (List Char) := (fileName p).bind extensionOf

/- What is left of a path, read backwards, without trailing separators and `.`. -/
def dropTail : List Char → List Char
  | '/' :: cs => dropTail cs
  | '.' :: '/' :: cs => dropTail cs
  | cs => cs

/- A name with a new extension. -/
def withExtension (name ext : List Char) : List Char :=
  stemOf name ++ if ext = [] then [] else '.' :: ext

/- `PathBuf::set_extension`: the text is cut after the stem. -/
def setExtension (p : Path) (ext : List Char) : Path :=
  match fileName p with
  | none => p
  | some name =>
    let base := (dropTail p.reverse).reverse
    base.take (base.length - name.length) ++ withExtension name ext

theorem fileName_inDir (h : Normal name) : fileName (inDir dir name) = some name := by
  rw [fileName, components_inDir h, List.getLast?_concat, Option.bind_some, if_pos h]

theorem extension_inDir (h : Normal name) : extension (inDir dir name) = extensionOf name := by
  rw [extension, fileName_inDir h, Option.bind_some]

theorem dropTail_name (h : Normal name) (cs : List Char) :
    dropTail (name.reverse ++ cs) = name.reverse ++ cs := by
  obtain ⟨hsep, hempty, hdot, -⟩ := h
  have hsep' : '/' ∉ name.reverse := by simpa using hsep
  have hempty' : name.reverse ≠ [] := by simpa using hempty
  have hdot' : name.reverse ≠ ['.'] := by
    intro he
    apply hdot
    rw [← List.reverse_reverse name, he]
    rfl
  generalize name.reverse = r at *
  cases r with
  | nil => exact absurd rfl hempty'
  | cons c r =>
    have hc : c ≠ '/' := fun he => hsep' (by simp [he])
    cases r with
    | nil =>
      have hc' : c ≠ '.' := fun he => hdot' (by rw [he])
      unfold dropTail
      split
      · rename_i heq
        cases heq
        exact absurd rfl hc
      · rename_i heq
        cases heq
        exact absurd rfl hc'
      · rfl
    | cons d r =>
      have hd : d ≠ '/' := fun he => hsep' (by simp [he])
      unfold dropTail
      split
      · rename_i heq
        cases heq
        exact absurd rfl hc
      · rename_i heq
        cases heq
        exact absurd rfl hd
      · rfl

/- The text of a path is cut before its name. -/
theorem cut_inDir (dir : Option Path) (name rest : List Char) :
    (inDir dir name).take ((inDir dir name).length - name.length) ++ rest = inDir dir rest := by
  cases dir with
  | none => simp [inDir]
  | some d =>
    have hlen : (d ++ '/' :: name).length - name.length = (d ++ ['/']).length := by
      simp only [List.length_append, List.length_cons, List.length_nil]
      omega
    have hsplit : d ++ '/' :: name = (d ++ ['/']) ++ name := by simp
    simp only [inDir]
    rw [hlen, hsplit, List.take_left' rfl]
    simp

theorem dropTail_inDir (h : Normal name) :
    (dropTail (inDir dir name).reverse).reverse = inDir dir name := by
  cases dir with
  | none =>
    have hdrop := dropTail_name h []
    rw [List.append_nil] at hdrop
    simp only [inDir, hdrop, List.reverse_reverse]
  | some d =>
    have hdrop := dropTail_name h ('/' :: d.reverse)
    simp only [inDir, List.reverse_append, List.reverse_cons, List.append_assoc,
      List.singleton_append, hdrop, List.reverse_reverse]

theorem setExtension_inDir (h : Normal name) (ext : List Char) :
    setExtension (inDir dir name) ext = inDir dir (withExtension name ext) := by
  rw [setExtension, fileName_inDir h]
  simp only [dropTail_inDir h]
  exact cut_inDir dir name _

/-! ### Names with an extension -/

theorem lastDot_of_not_mem (h : '.' ∉ ext) : lastDot ext = none := by
  induction ext with
  | nil => rfl
  | cons c ext ih =>
    have hc : c ≠ '.' := fun he => h (by simp [he])
    have hrest : '.' ∉ ext := fun hmem => h (List.mem_cons_of_mem c hmem)
    simp [lastDot, ih hrest, hc]

theorem lastDot_append (h : '.' ∉ ext) : lastDot (stem ++ '.' :: ext) = some (stem, ext) := by
  induction stem with
  | nil => simp [lastDot, lastDot_of_not_mem h]
  | cons c stem ih => simp [lastDot, ih]

theorem lastDot_some {before after : List Char} (h : lastDot name = some (before, after)) :
    name = before ++ '.' :: after := by
  induction name generalizing before with
  | nil => cases h
  | cons c name ih =>
    simp only [lastDot] at h
    split at h
    · rename_i b a heq
      cases h
      rw [ih heq]
      rfl
    · split at h
      · rename_i hc
        cases h
        rw [hc]
        rfl
      · cases h

theorem splitName_append (hstem : stem ≠ []) (h : '.' ∉ ext) :
    splitName (stem ++ '.' :: ext) = (stem, some ext) := by
  rw [splitName, lastDot_append h]
  simp [hstem]

/- The stem begins the name. -/
theorem stem_begins_name (name : List Char) : stemOf name <+: name := by
  unfold stemOf splitName
  split
  · rename_i before after h
    split
    · exact List.prefix_rfl
    · have heq := lastDot_some h
      exact ⟨'.' :: after, heq.symm⟩
  · exact List.prefix_rfl

theorem stemOf_ne_nil (h : name ≠ []) : stemOf name ≠ [] := by
  unfold stemOf splitName
  split
  · split
    · exact h
    · assumption
  · exact h

theorem normal_withExtension (h : Normal name) (hext : '/' ∉ ext) (hne : ext ≠ []) :
    Normal (withExtension name ext) := by
  have hstem : stemOf name ≠ [] := stemOf_ne_nil h.2.1
  have hlen : 0 < (stemOf name).length := List.length_pos_iff.mpr hstem
  have hlen' : 0 < ext.length := List.length_pos_iff.mpr hne
  have hlength : 2 < (withExtension name ext).length := by
    simp only [withExtension, if_neg hne, List.length_append, List.length_cons]
    omega
  refine ⟨?_, ?_, ?_, ?_⟩
  · simp only [withExtension, if_neg hne, List.mem_append, List.mem_cons, not_or]
    exact ⟨fun hmem => h.1 ((stem_begins_name name).subset hmem), by decide, hext⟩
  · intro he
    rw [he] at hlength
    simp at hlength
  · intro he
    rw [he] at hlength
    simp at hlength
  · intro he
    rw [he] at hlength
    simp at hlength

theorem stemOf_withExtension (h : name ≠ []) (hext : '.' ∉ ext) (hne : ext ≠ []) :
    stemOf (withExtension name ext) = stemOf name := by
  rw [withExtension, if_neg hne, stemOf, splitName_append (stemOf_ne_nil h) hext]

/- A new extension replaces the one set before. -/
theorem withExtension_withExtension (h : name ≠ []) (hext : '.' ∉ ext) (hne : ext ≠ [])
    (ext' : List Char) : withExtension (withExtension name ext) ext' = withExtension name ext' := by
  conv_lhs => rw [withExtension, stemOf_withExtension h hext hne]
  rfl

/-! ### Paths with a tail -/

theorem components_append_sep (p : Path) : components (p ++ ['/']) = components p := by
  simp only [components, pieces_append_sep, pieces, List.filter_append, ← List.cons_append]
  simp [kept]

theorem components_append_dot (p : Path) : components (p ++ ['/', '.']) = components p := by
  have hdot : pieces ['.'] = (['.'], []) := pieces_of_no_sep (by decide)
  simp only [components, pieces_append_sep, hdot, List.filter_append, ← List.cons_append]
  simp [kept]

/- Every path has a text after its last separator. -/
theorem exists_inDir (p : Path) : ∃ dir name, p = inDir dir name ∧ '/' ∉ name := by
  induction p with
  | nil => exact ⟨none, [], rfl, by simp⟩
  | cons c p ih =>
    obtain ⟨dir, name, rfl, hname⟩ := ih
    cases dir with
    | some d => exact ⟨some (c :: d), name, rfl, hname⟩
    | none =>
      by_cases hc : c = '/'
      · exact ⟨some [], name, by rw [hc]; rfl, hname⟩
      · refine ⟨none, c :: name, rfl, ?_⟩
        simp only [List.mem_cons, not_or]
        exact ⟨fun h => hc h.symm, hname⟩

theorem normal_of_fileName (h : fileName p = some name) : Normal name := by
  obtain ⟨last, -, hlast⟩ := Option.bind_eq_some_iff.mp h
  split at hlast
  · rename_i hnormal
    cases hlast
    exact hnormal
  · cases hlast

/- Without its tail, a path with a file name ends in it. -/
theorem dropTail_fileName (h : fileName p = some name) :
    ∃ dir, (dropTail p.reverse).reverse = inDir dir name := by
  generalize hr : p.reverse = r
  induction r using dropTail.induct generalizing p with
  | case1 cs ih =>
    have hp : p = cs.reverse ++ ['/'] := by
      rw [← List.reverse_reverse p, hr, List.reverse_cons]
    rw [dropTail]
    apply ih _ (List.reverse_reverse cs)
    rw [fileName, hp, components_append_sep] at h
    exact h
  | case2 cs ih =>
    have hp : p = cs.reverse ++ ['/', '.'] := by
      rw [← List.reverse_reverse p, hr, List.reverse_cons, List.reverse_cons, List.append_assoc]
      rfl
    rw [dropTail]
    apply ih _ (List.reverse_reverse cs)
    rw [fileName, hp, components_append_dot] at h
    exact h
  | case3 cs hslash hdot =>
    obtain ⟨dir, last, rfl, hsep⟩ := exists_inDir p
    have hempty : last ≠ [] := by
      rintro rfl
      cases dir with
      | none => cases h
      | some d => exact hslash d.reverse (by rw [← hr]; simp [inDir])
    have hone : last ≠ ['.'] := by
      rintro rfl
      cases dir with
      | none =>
        have hnone : fileName (inDir none ['.']) = none := by decide
        rw [hnone] at h
        cases h
      | some d => exact hdot d.reverse (by rw [← hr]; simp [inDir])
    have hname : last = name := by
      rw [fileName, components_piece hsep hempty hone, List.getLast?_concat, Option.bind_some] at h
      split at h
      · exact Option.some.inj h
      · cases h
    rw [dropTail]
    · rw [← hr, List.reverse_reverse, hname]
      exact ⟨dir, rfl⟩
    · exact hslash
    · exact hdot

theorem setExtension_fileName (h : fileName p = some name) :
    ∃ dir, ∀ ext, setExtension p ext = inDir dir (withExtension name ext) := by
  obtain ⟨dir, hbase⟩ := dropTail_fileName h
  refine ⟨dir, fun ext => ?_⟩
  rw [setExtension, h]
  simp only [hbase]
  exact cut_inDir dir name _

theorem setExtension_ends (h : fileName p ≠ none) (hne : ext ≠ []) :
    ∃ before, setExtension p ext = before ++ '.' :: ext := by
  obtain ⟨name, hname⟩ := Option.ne_none_iff_exists'.mp h
  obtain ⟨dir, hset⟩ := setExtension_fileName hname
  rw [hset ext, withExtension, if_neg hne]
  cases dir with
  | none => exact ⟨stemOf name, rfl⟩
  | some d => exact ⟨d ++ '/' :: stemOf name, by simp [inDir]⟩

theorem setExtension_setExtension {ext' : List Char} (hsep : '/' ∉ ext) (hdot : '.' ∉ ext)
    (hne : ext ≠ []) (h : fileName p ≠ none) :
    setExtension (setExtension p ext) ext' = setExtension p ext' := by
  obtain ⟨name, hname⟩ := Option.ne_none_iff_exists'.mp h
  obtain ⟨dir, hset⟩ := setExtension_fileName hname
  have hnormal := normal_of_fileName hname
  rw [hset ext, hset ext', setExtension_inDir (normal_withExtension hnormal hsep hne),
    withExtension_withExtension hnormal.2.1 hdot hne]

end IdaHeadless.Paths
