import IdaHeadless.Dsc.Scripts
import IdaHeadless.Python.Layout

/-!
# The layout of the generated scripts (dsc.rs)

Each script is meant to be a module: two imports, the helpers, the load calls and the analysis. The
line continuation that begins the text takes one tab off the first line only, and the second import
stands behind a tab.
-/

namespace IdaHeadless.Scripts

open Text Transducer Python

/-! ### The statements a script is meant to have -/

def code (lit : Literal) : List Piece := pieces lit.chars

/- A call with a literal as its last argument. -/
def call (name pre : Literal) (value : List Char) : List Piece :=
  code name ++ (Part.argument pre value).pieces

def imports : List (List Piece) :=
  [code ⟨"import idaapi", _, rfl⟩, code ⟨"from idc import *", _, rfl⟩]

def helperDefinitions : List (List Piece) := [
    code ⟨"def run_plugin_checked(name, arg, context, strict_nonzero=False):", _, rfl⟩,
    code ⟨"def legacy_dscu_load_module(module):", _, rfl⟩,
    code ⟨"def modern_dscu_service():", _, rfl⟩,
    code ⟨"def dscu_load_module(module):", _, rfl⟩,
    code ⟨"def legacy_dscu_load_region(ea):", _, rfl⟩,
    code ⟨"def modern_dscu_load_region(ida_dscu, svc, ea):", _, rfl⟩,
    code ⟨"def dscu_load_region(ea):", _, rfl⟩]

def backendStatement : List Piece :=
  code ⟨"print(f\"[ida-mcp] dsc backend: \x7bdsc_backend\x7d\")", _, rfl⟩

def moduleStatements (module : List Char) : List (List Piece) :=
  [call ⟨"print(", _, rfl⟩ ⟨"[ida-mcp] loading module: ", _, rfl⟩ module,
    call ⟨"dsc_backend = dscu_load_module(", _, rfl⟩ ⟨"", _, rfl⟩ module, backendStatement]

def frameworkStatements (fw : List Char) : List (List Piece) :=
  [call ⟨"print(", _, rfl⟩ ⟨"[ida-mcp] loading framework: ", _, rfl⟩ fw,
    call ⟨"dscu_load_module(", _, rfl⟩ ⟨"", _, rfl⟩ fw]

def analysisStatements : List (List Piece) := [
    code ⟨"print(\"[ida-mcp] analyzing objc types\")", _, rfl⟩,
    code ⟨"load_and_run_plugin(\"objc\", 1)", _, rfl⟩,
    code ⟨"print(\"[ida-mcp] analyzing NSConcreteGlobalBlock objects\")", _, rfl⟩,
    code ⟨"load_and_run_plugin(\"objc\", 4)", _, rfl⟩,
    code ⟨"print(\"[ida-mcp] performing auto-analysis...\")", _, rfl⟩,
    code ⟨"auto_mark_range(0, BADADDR, AU_FINAL)", _, rfl⟩,
    code ⟨"auto_wait()", _, rfl⟩,
    code ⟨"print(\"[ida-mcp] analyzing NSConcreteStackBlock objects\")", _, rfl⟩,
    code ⟨"load_and_run_plugin(\"objc\", 5)", _, rfl⟩,
    code ⟨"print(\"[ida-mcp] DSC module loading complete\")", _, rfl⟩]

def loadStatements (module : List Char) (frameworks : List (List Char)) : List (List Piece) :=
  imports ++ helperDefinitions ++ moduleStatements module ++
    frameworks.flatMap frameworkStatements ++ analysisStatements

def lightAnalysisStatements : List (List Piece) := [
    code ⟨"print(\"[ida-mcp] analyzing objc types\")", _, rfl⟩,
    code ⟨"run_plugin_checked(\"objc\", 1, \"objc type analysis\", False)", _, rfl⟩,
    code ⟨"print(\"[ida-mcp] analyzing NSConcreteGlobalBlock objects\")", _, rfl⟩,
    code ⟨"run_plugin_checked(\"objc\", 4, \"objc global block analysis\", False)", _, rfl⟩]

def addDylibCallStatements (module : List Char) : List (List Piece) :=
  [call ⟨"print(", _, rfl⟩ ⟨"[ida-mcp] loading additional dylib: ", _, rfl⟩ module,
    call ⟨"dsc_backend = dscu_load_module(", _, rfl⟩ ⟨"", _, rfl⟩ module, backendStatement] ++
    lightAnalysisStatements ++
    [call ⟨"print(", _, rfl⟩ ⟨"[ida-mcp] dsc_add_dylib complete for: ", _, rfl⟩ module]

def addDylibStatements (module : List Char) : List (List Piece) :=
  imports ++ helperDefinitions ++ addDylibCallStatements module

/- `eaHex`, the address as the region script prints it. -/
def regionHex (ea : ℕ) : List Char := '0' :: 'x' :: Nat.toDigits 16 ea

def addRegionCallStatements (ea : ℕ) : List (List Piece) :=
  [call ⟨"print(", _, rfl⟩ ⟨"[ida-mcp] loading region ", _, rfl⟩ (regionHex ea),
    code ⟨"dsc_backend = dscu_load_region(", _, rfl⟩ ++
      ((Nat.toDigits 10 ea).map Piece.char ++ [Piece.char ')']),
    backendStatement,
    call ⟨"print(", _, rfl⟩ ⟨"[ida-mcp] dsc_add_region complete for: ", _, rfl⟩ (regionHex ea)]

def addRegionStatements (ea : ℕ) : List (List Piece) :=
  imports ++ helperDefinitions ++ addRegionCallStatements ea

/-- The script is one module with these statements at its top level. -/
def IsModule (script : List Char) (expected : List (List Piece)) : Prop :=
  ∃ ss, statements script = some ss ∧ topLevel ss = expected

/-! ### The second import -/

/-- The lines of the imports: the second one is indented below no header. -/
def importLines : List Line :=
  [⟨0, 0, code ⟨"import idaapi", _, rfl⟩⟩, ⟨8, 1, code ⟨"from idc import *", _, rfl⟩⟩]

theorem header_lines : endsInCode header.chars = true ∧
    run stepLine (.start 0 0) (pieces header.chars) = some (.start 8 1, importLines) ∧
    run stepBlock ⟨[], false⟩ importLines = none := by decide +kernel

theorem statements_header (rest : List Char) : statements (header.chars ++ rest) = none := by
  obtain ⟨hread, hlines, hnest⟩ := header_lines
  exact statements_eq_none (by decide) (reads_pieces hread) hlines hnest rest

theorem not_isModule (parts : List Part) (expected : List (List Piece)) :
    ¬ IsModule (render (text header :: parts)) expected := by
  rintro ⟨ss, hss, -⟩
  rw [render, List.flatMap_cons] at hss
  have hnone : statements (header.chars ++ parts.flatMap Part.render) = none :=
    statements_header _
  rw [text, Part.render, hnone] at hss
  cases hss

/-- None of the scripts is a module, whatever is to be loaded. -/
theorem scripts_not_modules (module : List Char) (frameworks : List (List Char)) (ea : ℕ)
    (expected : List (List Piece)) :
    ¬ IsModule (dscLoadScript module frameworks) expected ∧
      ¬ IsModule (dscAddDylibScript module) expected ∧
      ¬ IsModule (dscAddRegionScript ea) expected :=
  ⟨not_isModule _ _, not_isModule _ _, not_isModule _ _⟩

theorem load_libobjc_not_module :
    ¬ IsModule (dscLoadScript "/usr/lib/libobjc.A.dylib".toList [])
      (loadStatements "/usr/lib/libobjc.A.dylib".toList []) := by
  rintro ⟨ss, hss, -⟩
  have hnone : statements (dscLoadScript "/usr/lib/libobjc.A.dylib".toList []) = none :=
    statements_header _
  rw [hnone] at hss
  cases hss

/-! ### The scripts without the tabs -/

/- The tabs of the template. A name keeps its own. -/
def Part.withoutTabs : Part → Part
  | .text chars => .text (chars.filter (· ≠ '\t'))
  | .argument pre value => .argument pre value

variable {module : List Char} {frameworks : List (List Char)} {b : Blocks} {parts : List Part}

theorem argument_withoutTabs (pre : Literal) (value : List Char) :
    (Part.argument pre value).withoutTabs = .argument pre value := rfl

/- The last helper ends inside of a block. -/
def afterHelpers : Blocks := ⟨[(4, 4)], false⟩

set_option maxRecDepth 20000 in
theorem analyses_laid_out :
    layout ⟨[], false⟩ (Part.text analysis).withoutTabs.pieces =
      some (⟨[], false⟩, analysisStatements) ∧
    layout ⟨[], false⟩ (Part.text lightAnalysis).withoutTabs.pieces =
      some (⟨[], false⟩, lightAnalysisStatements) := by decide +kernel

/- The names of the functions that are called with a literal. -/
def printName : Literal := ⟨"print(", _, rfl⟩
def loadName : Literal := ⟨"dscu_load_module(", _, rfl⟩
def backendName : Literal := ⟨"dsc_backend = dscu_load_module(", _, rfl⟩

def regionName : Literal := ⟨"dsc_backend = dscu_load_region(", _, rfl⟩

def names : List Literal := [printName, loadName, backendName, regionName]

theorem names_read : ∀ name ∈ names, run stepLine (.start 0 0) (code name) =
    some (.body ⟨0, 0, (code name).reverse⟩ [')'], []) := by decide +kernel

theorem lays_named {name : Literal} (hname : name ∈ names) (pre : Literal) (value : List Char)
    (hheader : b.header = false) (hcolumns : ∀ c ∈ b.columns, 0 < c.1) :
    Lays b (call name pre value ++ [Piece.char '\n']) ⟨[], false⟩ [call name pre value] := by
  have hcall := lays_call '"' (pre.chars ++ value) hheader hcolumns (names_read name hname)
  rwa [call, List.append_assoc]

theorem lays_print (pre : Literal) (value : List Char) (hheader : b.header = false)
    (hcolumns : ∀ c ∈ b.columns, 0 < c.1) :
    Lays b (call printName pre value ++ [Piece.char '\n']) ⟨[], false⟩ [call printName pre value] :=
  lays_named List.mem_cons_self pre value hheader hcolumns

theorem lays_load (fw : List Char) :
    Lays ⟨[], false⟩ (call loadName ⟨"", _, rfl⟩ fw ++ [Piece.char '\n']) ⟨[], false⟩
      [call loadName ⟨"", _, rfl⟩ fw] :=
  lays_named (List.mem_cons_of_mem _ List.mem_cons_self) _ fw rfl (by simp)

theorem lays_printBackend :
    Lays ⟨[], false⟩ (pieces printBackend.chars) ⟨[], false⟩ [backendStatement] := by
  have hprint : beginsBlock backendStatement = false ∧
      run stepLine (.start 0 0) (pieces printBackend.chars) =
        some (.start 0 0, [⟨0, 0, backendStatement⟩]) := ⟨rfl, rfl⟩
  exact lays_line rfl (by simp) hprint.1 hprint.2

/- The backend is kept, and printed on the line below. -/
theorem lays_backend (module : List Char) :
    Lays ⟨[], false⟩
      (call backendName ⟨"", _, rfl⟩ module ++ [Piece.char '\n'] ++ pieces printBackend.chars)
      ⟨[], false⟩ [call backendName ⟨"", _, rfl⟩ module, backendStatement] := by
  have hcall : Lays ⟨[], false⟩ (call backendName ⟨"", _, rfl⟩ module ++ [Piece.char '\n'])
      ⟨[], false⟩ [call backendName ⟨"", _, rfl⟩ module] :=
    lays_named (List.mem_cons_of_mem _ (List.mem_cons_of_mem _ List.mem_cons_self)) _ module rfl
      (by simp)
  exact hcall.append lays_printBackend

/-- What is read of the texts between two literals. -/
theorem texts_read :
    (text ⟨"\n", _, rfl⟩).withoutTabs.pieces = [Piece.char '\n'] ∧
    (text ⟨"\n\t", _, rfl⟩).withoutTabs.pieces = [Piece.char '\n'] ∧
    (text ⟨"print(", _, rfl⟩).withoutTabs.pieces = code printName ∧
    (text ⟨"\nprint(", _, rfl⟩).withoutTabs.pieces = [Piece.char '\n'] ++ code printName ∧
    (text ⟨"\n# Load primary module\nprint(", _, rfl⟩).withoutTabs.pieces =
      [Piece.char '\n'] ++ ([Piece.char '\n'] ++ code printName) ∧
    (text ⟨"\n\n\tprint(", _, rfl⟩).withoutTabs.pieces =
      [Piece.char '\n'] ++ ([Piece.char '\n'] ++ code printName) ∧
    (text ⟨"\ndscu_load_module(", _, rfl⟩).withoutTabs.pieces = [Piece.char '\n'] ++ code loadName ∧
    (text ⟨"\ndsc_backend = dscu_load_module(", _, rfl⟩).withoutTabs.pieces =
      [Piece.char '\n'] ++ code backendName ∧
    (text ⟨"\n\tdsc_backend = dscu_load_module(", _, rfl⟩).withoutTabs.pieces =
      [Piece.char '\n'] ++ code backendName ∧
    (text printBackend).withoutTabs.pieces = pieces printBackend.chars :=
  ⟨rfl, rfl, rfl, rfl, rfl, rfl, rfl, rfl, rfl, rfl⟩

theorem lays_framework (fw : List Char) :
    Lays ⟨[], false⟩ (((loadFramework fw).map Part.withoutTabs).flatMap Part.pieces) ⟨[], false⟩
      (frameworkStatements fw) := by
  obtain ⟨hend, -, -, hprint, -, -, hload, -⟩ := texts_read
  have hpieces : ((loadFramework fw).map Part.withoutTabs).flatMap Part.pieces =
      [Piece.char '\n'] ++
        ((call printName ⟨"[ida-mcp] loading framework: ", _, rfl⟩ fw ++ [Piece.char '\n']) ++
          (call loadName ⟨"", _, rfl⟩ fw ++ [Piece.char '\n'])) := by
    simp only [loadFramework, List.map_cons, List.map_nil, List.flatMap_cons, List.flatMap_nil,
      hprint, hload, hend, call, argument_withoutTabs, List.append_assoc, List.append_nil]
  rw [hpieces]
  exact (Lays.blank _).append ((lays_print _ fw rfl (by simp)).append (lays_load fw))

theorem lays_frameworks (frameworks : List (List Char)) :
    Lays ⟨[], false⟩
      (((frameworks.flatMap loadFramework).map Part.withoutTabs).flatMap Part.pieces) ⟨[], false⟩
      (frameworks.flatMap frameworkStatements) := by
  induction frameworks with
  | nil => exact Lays.nil
  | cons fw frameworks ih =>
    rw [List.flatMap_cons, List.map_append, List.flatMap_append, List.flatMap_cons]
    exact (lays_framework fw).append ih

theorem lays_module (module : List Char) :
    Lays afterHelpers (((loadModule module).map Part.withoutTabs).flatMap Part.pieces)
      ⟨[], false⟩ (moduleStatements module) := by
  obtain ⟨hend, -, -, -, hprint, -, -, hload, -, hbackend⟩ := texts_read
  have hpieces : ((loadModule module).map Part.withoutTabs).flatMap Part.pieces =
      [Piece.char '\n'] ++ ([Piece.char '\n'] ++
        ((call printName ⟨"[ida-mcp] loading module: ", _, rfl⟩ module ++ [Piece.char '\n']) ++
          (call backendName ⟨"", _, rfl⟩ module ++ [Piece.char '\n'] ++
            pieces printBackend.chars))) := by
    simp only [loadModule, List.map_cons, List.map_nil, List.flatMap_cons, List.flatMap_nil,
      hprint, hload, hend, hbackend, call, argument_withoutTabs, List.append_assoc,
      List.append_nil]
  rw [hpieces]
  exact (Lays.blank _).append ((Lays.blank _).append
    ((lays_print _ module rfl (by simp [afterHelpers])).append (lays_backend module)))

theorem lays_addDylib (module : List Char) :
    Lays afterHelpers (((addDylibCalls module).map Part.withoutTabs).flatMap Part.pieces)
      ⟨[], false⟩ (addDylibCallStatements module) := by
  obtain ⟨hend, hblank, hcomplete, -, -, hprint, -, -, hload, hbackend⟩ := texts_read
  have hpieces : ((addDylibCalls module).map Part.withoutTabs).flatMap Part.pieces =
      [Piece.char '\n'] ++ ([Piece.char '\n'] ++
        ((call printName ⟨"[ida-mcp] loading additional dylib: ", _, rfl⟩ module ++
            [Piece.char '\n']) ++
          (call backendName ⟨"", _, rfl⟩ module ++ [Piece.char '\n'] ++ pieces printBackend.chars ++
            ((Part.text lightAnalysis).withoutTabs.pieces ++
              (call printName ⟨"[ida-mcp] dsc_add_dylib complete for: ", _, rfl⟩ module ++
                [Piece.char '\n']))))) := by
    simp only [addDylibCalls, List.map_cons, List.map_nil, List.flatMap_cons, List.flatMap_nil,
      hprint, hload, hblank, hbackend, hcomplete, hend, call, argument_withoutTabs,
      List.append_assoc, List.append_nil]
  rw [hpieces]
  exact (Lays.blank _).append ((Lays.blank _).append
    ((lays_print _ module rfl (by simp [afterHelpers])).append ((lays_backend module).append
      ((lays_of_layout analyses_laid_out.2).append (lays_print _ module rfl (by simp))))))

/-! ### The region script in whole tokens -/

theorem digits_word {radix : ℕ} (hone : 1 < radix) (hradix : radix ≤ 16) (n : ℕ) :
    ∀ c ∈ Nat.toDigits radix n, isWordChar c = true := by
  intro c hc
  obtain ⟨d, hd, rfl⟩ := mem_digits hone hc
  have hall : ∀ d < 16, isWordChar (Nat.digitChar d) = true := by decide
  exact hall d (hd.trans_le hradix)

theorem decimal_word (n : ℕ) : ∀ c ∈ Nat.toDigits 10 n, isWordChar c = true :=
  digits_word (by decide) (by decide) n

theorem regionHex_word (ea : ℕ) : ∀ c ∈ regionHex ea, isWordChar c = true := by
  rw [regionHex, List.forall_mem_cons, List.forall_mem_cons]
  exact ⟨rfl, rfl, digits_word (by decide) (by decide) ea⟩

theorem filter_word {cs : List Char} (h : ∀ c ∈ cs, isWordChar c = true) :
    cs.filter (· ≠ '\t') = cs := by
  rw [List.filter_eq_self]
  intro c hc
  exact decide_eq_true (word_ne (h c hc) rfl)

def backendPrefix : Literal := ⟨"\ndsc_backend = dscu_load_region(", _, rfl⟩
def backendSuffix : Literal := ⟨")\n", _, rfl⟩

/- The call with the number it is given. -/
def regionCall (ea : ℕ) : List Char :=
  backendPrefix.chars ++ (Nat.toDigits 10 ea ++ backendSuffix.chars)

/-- The calls of the region script with the printed addresses inside of their literals. -/
def addRegionCalls (ea : ℕ) : List Part :=
  [text ⟨"\n\nprint(", _, rfl⟩, .argument ⟨"[ida-mcp] loading region ", _, rfl⟩ (regionHex ea),
    .text (regionCall ea), text printBackend, text ⟨"print(", _, rfl⟩,
    .argument ⟨"[ida-mcp] dsc_add_region complete for: ", _, rfl⟩ (regionHex ea),
    text ⟨"\n", _, rfl⟩]

/-- What stands around the printed addresses. -/
theorem region_texts :
    (text ⟨"\n\n\tprint(\"[ida-mcp] loading region ", _, rfl⟩).withoutTabs.render =
      "\n\nprint(\"[ida-mcp] loading region ".toList ∧
    (text ⟨"\")\n\tdsc_backend = dscu_load_region(", _, rfl⟩).withoutTabs.render =
      '"' :: ')' :: backendPrefix.chars ∧
    (text ⟨")\n\t", _, rfl⟩).withoutTabs.render = backendSuffix.chars ∧
    (text printBackend).withoutTabs.render = printBackend.chars ∧
    (text ⟨"\tprint(\"[ida-mcp] dsc_add_region complete for: ", _, rfl⟩).withoutTabs.render =
      "print(\"[ida-mcp] dsc_add_region complete for: ".toList ∧
    (text ⟨"\")\n\t", _, rfl⟩).withoutTabs.render = ['"', ')', '\n'] :=
  ⟨rfl, rfl, rfl, rfl, rfl, rfl⟩

theorem render_addRegion (ea : ℕ) :
    render ((addRegionParts ea).map Part.withoutTabs) =
      render (preamble.map Part.withoutTabs ++ addRegionCalls ea) := by
  obtain ⟨hload, hcall, hend, hbackend, hcomplete, hlast⟩ := region_texts
  have hhex : (Part.text (regionHex ea)).withoutTabs.render = regionHex ea :=
    filter_word (regionHex_word ea)
  have hnumber : (Part.text (Nat.toDigits 10 ea)).withoutTabs.render = Nat.toDigits 10 ea :=
    filter_word (decimal_word ea)
  have hescape : escapePythonString (regionHex ea) = regionHex ea :=
    escape_word (regionHex_word ea)
  rw [addRegionParts, ← regionHex, List.map_append]
  simp only [render, List.flatMap_append, List.map_cons, List.map_nil, List.flatMap_cons,
    List.flatMap_nil, hload, hcall, hend, hbackend, hcomplete, hlast, hhex, hnumber]
  simp only [addRegionCalls, regionCall, text, Part.render, hescape, List.flatMap_cons,
    List.flatMap_nil]
  simp

theorem regionCall_reads (ea : ℕ) :
    Reads Python.step (.code []) (regionCall ea) (.code [])
      ([Piece.char '\n'] ++ (code regionName ++
        ((Nat.toDigits 10 ea).map Piece.char ++ [Piece.char ')', Piece.char '\n']))) := by
  have hname : run Python.step (.code []) backendPrefix.chars =
      some (.code [], [Piece.char '\n'] ++ code regionName) := rfl
  have hend : ∀ word, Reads Python.step (.code word) backendSuffix.chars (.code [])
      [Piece.char ')', Piece.char '\n'] := fun _ => rfl
  have hnumber := reads_word (decimal_word ea) []
  have hreads := Reads.append hname (hnumber.append (hend _))
  rwa [List.append_assoc] at hreads

theorem lays_addRegion (ea : ℕ) :
    Lays afterHelpers ((addRegionCalls ea).flatMap Part.pieces) ⟨[], false⟩
      (addRegionCallStatements ea) := by
  have htexts : (text ⟨"\n\nprint(", _, rfl⟩).pieces =
        [Piece.char '\n'] ++ ([Piece.char '\n'] ++ code printName) ∧
      (text ⟨"print(", _, rfl⟩).pieces = code printName ∧
      (text ⟨"\n", _, rfl⟩).pieces = [Piece.char '\n'] := ⟨rfl, rfl, rfl⟩
  obtain ⟨hload, hprint, hend⟩ := htexts
  have hcall : (Part.text (regionCall ea)).pieces = [Piece.char '\n'] ++ (code regionName ++
      ((Nat.toDigits 10 ea).map Piece.char ++ [Piece.char ')', Piece.char '\n'])) :=
    pieces_eq (regionCall_reads ea)
  have hpieces : (addRegionCalls ea).flatMap Part.pieces =
      [Piece.char '\n'] ++ ([Piece.char '\n'] ++
        ((call printName ⟨"[ida-mcp] loading region ", _, rfl⟩ (regionHex ea) ++
            [Piece.char '\n']) ++
          ((code regionName ++
              ((Nat.toDigits 10 ea).map Piece.char ++ [Piece.char ')', Piece.char '\n'])) ++
            (pieces printBackend.chars ++
              (call printName ⟨"[ida-mcp] dsc_add_region complete for: ", _, rfl⟩ (regionHex ea) ++
                [Piece.char '\n']))))) := by
    simp only [addRegionCalls, List.flatMap_cons, List.flatMap_nil, hload, hprint, hend, hcall,
      call, List.append_assoc, List.append_nil]
    rfl
  have hnumber : Lays ⟨[], false⟩
      (code regionName ++
        ((Nat.toDigits 10 ea).map Piece.char ++ [Piece.char ')', Piece.char '\n'])) ⟨[], false⟩
      [code regionName ++ ((Nat.toDigits 10 ea).map Piece.char ++ [Piece.char ')'])] :=
    lays_word (decimal_word ea) rfl (by simp) (names_read regionName (by simp [names]))
  rw [hpieces]
  exact (Lays.blank _).append ((Lays.blank _).append
    ((lays_print _ _ rfl (by simp [afterHelpers])).append (hnumber.append
      (lays_printBackend.append (lays_print _ _ rfl (by simp))))))

theorem regionCall_readable (ea : ℕ) : (Part.text (regionCall ea)).Readable := by
  refine ⟨?_, List.not_mem_nil⟩
  have hreturn : '\r' ∉ regionCall ea := by
    have htexts : '\r' ∉ backendPrefix.chars ∧ '\r' ∉ backendSuffix.chars := by
      simp [backendPrefix, backendSuffix]
    have hdigits : '\r' ∉ Nat.toDigits 10 ea := fun hmem =>
      word_ne (decimal_word ea '\r' hmem) rfl rfl
    rw [regionCall, List.mem_append, List.mem_append, not_or, not_or]
    exact ⟨htexts.1, hdigits, htexts.2⟩
  rw [Part.ready, endsInCode_of_reads (regionCall_reads ea), decide_eq_true hreturn, Bool.and_self]

theorem addRegionCalls_readable (ea : ℕ) : ∀ part ∈ addRegionCalls ea, part.Readable := by
  have htext : ∀ lit : Literal, (text lit).ready = true → (text lit).Readable :=
    fun lit hready => ⟨hready, List.not_mem_nil⟩
  have hhex : ∀ pre : Literal, (Part.argument pre []).ready = true →
      (Part.argument pre (regionHex ea)).Readable := by
    intro pre hready
    refine ⟨(ready_blind pre (regionHex ea)).trans hready, fun hmem => ?_⟩
    exact word_ne (regionHex_word ea '\x00' hmem) rfl rfl
  simp only [addRegionCalls, List.forall_mem_cons]
  exact ⟨htext _ rfl, hhex _ rfl, regionCall_readable ea, htext _ rfl, htext _ rfl,
    hhex _ rfl, htext _ rfl, List.forall_mem_nil _⟩

/-! ### The modules -/

def tidy (part : Part) : Bool := part.withoutTabs.ready

theorem tidy_blind : Blind tidy := fun _ _ => rfl

set_option maxRecDepth 20000 in
theorem templates_tidy : templates.all tidy = true := by decide +kernel

theorem withoutTabs_readable (h : ∀ part ∈ parts, part.Readable)
    (htidy : ∀ part ∈ parts, tidy part = true) :
    ∀ part ∈ parts.map Part.withoutTabs, part.Readable := by
  intro part hpart
  obtain ⟨part', hpart', rfl⟩ := List.mem_map.mp hpart
  refine ⟨htidy part' hpart', ?_⟩
  cases part' with
  | text chars => exact List.not_mem_nil
  | argument pre value => exact (h _ hpart').value

theorem isModule_of_lays {tops : List (List Piece)} (h : ∀ part ∈ parts, part.Readable)
    (hlays : Lays ⟨[], false⟩ (parts.flatMap Part.pieces) ⟨[], false⟩ tops) :
    IsModule (render parts) tops := statements_of_lays (lex_render h) hlays

theorem preamble_readable : ∀ part ∈ preamble.map Part.withoutTabs, part.Readable := by
  apply withoutTabs_readable
  · intro part hpart
    exact addDylibParts_readable List.not_mem_nil part (List.mem_append_left _ hpart)
  · intro part hpart
    exact addDylib_of_templates tidy_blind templates_tidy [] part (List.mem_append_left _ hpart)

set_option maxRecDepth 20000 in
theorem preamble_laid_out :
    layout ⟨[], false⟩ ((preamble.map Part.withoutTabs).flatMap Part.pieces) =
      some (afterHelpers, imports ++ helperDefinitions) := by decide +kernel

/-- But for the tabs of its template, a load script is the module it is meant to be. -/
theorem load_without_tabs (hmodule : '\x00' ∉ module) (hfws : ∀ fw ∈ frameworks, '\x00' ∉ fw) :
    IsModule (render ((loadParts module frameworks).map Part.withoutTabs))
      (loadStatements module frameworks) := by
  apply isModule_of_lays
  · exact withoutTabs_readable (loadParts_readable hmodule hfws)
      (load_of_templates tidy_blind templates_tidy module frameworks)
  · simp only [loadParts, List.map_append, List.map_cons, List.map_nil, List.flatMap_append,
      List.flatMap_cons, List.flatMap_nil, List.append_nil, texts_read.2.1]
    have hhead := (lays_of_layout preamble_laid_out).append (Lays.blank afterHelpers)
    rw [List.append_nil] at hhead
    exact ((hhead.append (lays_module module)).append (lays_frameworks frameworks)).append
      (lays_of_layout analyses_laid_out.1)

/-- So is a script that adds a library. -/
theorem addDylib_without_tabs (hmodule : '\x00' ∉ module) :
    IsModule (render ((addDylibParts module).map Part.withoutTabs))
      (addDylibStatements module) := by
  apply isModule_of_lays
  · exact withoutTabs_readable (addDylibParts_readable hmodule)
      (addDylib_of_templates tidy_blind templates_tidy module)
  · rw [addDylibParts, List.map_append, List.flatMap_append]
    exact (lays_of_layout preamble_laid_out).append (lays_addDylib module)

/-- And a script that adds a region. -/
theorem addRegion_without_tabs (ea : ℕ) :
    IsModule (render ((addRegionParts ea).map Part.withoutTabs)) (addRegionStatements ea) := by
  rw [render_addRegion]
  apply isModule_of_lays
  · exact List.forall_mem_append.mpr ⟨preamble_readable, addRegionCalls_readable ea⟩
  · rw [List.flatMap_append]
    exact (lays_of_layout preamble_laid_out).append (lays_addRegion ea)

end IdaHeadless.Scripts
