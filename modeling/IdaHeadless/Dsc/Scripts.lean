import IdaHeadless.Python.Lexer
import IdaHeadless.Text

/-!
# Generated scripts (dsc.rs)

The IDAPython scripts that load modules of a dyld shared cache, as text. The names of modules are
put between double quotes, with four characters escaped. A line continuation in a literal of the
source takes the white space in front of the next line off, but not a tab that stands in the text.
-/

namespace IdaHeadless.Scripts

open Text Transducer Python

/-! ### `escape_python_string` -/

/- `str::replace` of a character. -/
def replace (c : Char) (new : List Char) (s : List Char) : List Char :=
  s.flatMap fun d => if d = c then new else [d]

def escapePythonString (s : List Char) : List Char :=
  replace '\r' ['\\', 'r'] (replace '\n' ['\\', 'n'] (replace '"' ['\\', '"']
    (replace '\\' ['\\', '\\'] s)))

/-! ### The scripts -/

/-- A part of a script: text that the source holds, or a literal around an escaped value, with the
parenthesis behind it. -/
inductive Part where
  | text (chars : List Char)
  | argument (pre : Literal) (value : List Char)

def Part.render : Part → List Char
  | .text chars => chars
  | .argument pre value => '"' :: (pre.chars ++ escapePythonString value) ++ ['"', ')']

def render (parts : List Part) : List Char := parts.flatMap Part.render

def scriptLines (ls : List Literal) : List Char := ls.flatMap fun l => l.chars ++ ['\n']

def text (lit : Literal) : Part := .text lit.chars

/- A line of a script in two halves. -/
def joined (a b : Literal) : Literal :=
  ⟨a.text ++ b.text, a.chars ++ b.chars, by rw [a.text_eq, b.text_eq, String.ofList_append]⟩

def dscuPythonHelpers : List Char := scriptLines [
    ⟨"", _, rfl⟩,
    ⟨"def run_plugin_checked(name, arg, context, strict_nonzero=False):", _, rfl⟩,
    ⟨"    def plugin_failed():", _, rfl⟩,
    joined
      ⟨"        raise RuntimeError(f\"\x7bname\x7d plugin failed during \x7bcontext\x7d ", _, rfl⟩
      ⟨"(return=\x7brc!r\x7d)\")", _, rfl⟩,
    ⟨"", _, rfl⟩,
    ⟨"    rc = load_and_run_plugin(name, arg)", _, rfl⟩,
    ⟨"    if rc is None:", _, rfl⟩,
    ⟨"        plugin_failed()", _, rfl⟩,
    ⟨"    if strict_nonzero and (rc is False or (isinstance(rc, int) and rc <= 0)):", _, rfl⟩,
    ⟨"        plugin_failed()", _, rfl⟩,
    ⟨"    if isinstance(rc, int) and rc < 0:", _, rfl⟩,
    ⟨"        plugin_failed()", _, rfl⟩,
    ⟨"    return rc", _, rfl⟩,
    ⟨"", _, rfl⟩,
    ⟨"def legacy_dscu_load_module(module):", _, rfl⟩,
    ⟨"    node = idaapi.netnode()", _, rfl⟩,
    ⟨"    node.create(\"$ dscu\")", _, rfl⟩,
    ⟨"    node.supset(2, module)", _, rfl⟩,
    ⟨"    run_plugin_checked(\"dscu\", 1, f\"loading module \x7bmodule\x7d\", True)", _, rfl⟩,
    ⟨"", _, rfl⟩,
    ⟨"def modern_dscu_service():", _, rfl⟩,
    ⟨"    try:", _, rfl⟩,
    ⟨"        import ida_dscu", _, rfl⟩,
    ⟨"    except ImportError:", _, rfl⟩,
    ⟨"        return None, None", _, rfl⟩,
    ⟨"", _, rfl⟩,
    ⟨"    svc = ida_dscu.get_dscu_svc()", _, rfl⟩,
    ⟨"    if svc is None:", _, rfl⟩,
    ⟨"        return ida_dscu, None", _, rfl⟩,
    ⟨"    return ida_dscu, svc", _, rfl⟩,
    ⟨"", _, rfl⟩,
    ⟨"def dscu_load_module(module):", _, rfl⟩,
    ⟨"    ida_dscu, svc = modern_dscu_service()", _, rfl⟩,
    ⟨"    if svc is None:", _, rfl⟩,
    ⟨"        legacy_dscu_load_module(module)", _, rfl⟩,
    ⟨"        return \"legacy\"", _, rfl⟩,
    ⟨"", _, rfl⟩,
    ⟨"    image_index = svc.get_image_index(module)", _, rfl⟩,
    ⟨"    if image_index < 0:", _, rfl⟩,
    ⟨"        raise RuntimeError(f\"DSC image not found: \x7bmodule\x7d\")", _, rfl⟩,
    ⟨"    if svc.is_image_loaded(image_index):", _, rfl⟩,
    ⟨"        print(f\"[ida-mcp] module already loaded: \x7bmodule\x7d\")", _, rfl⟩,
    ⟨"        return \"ida_dscu\"", _, rfl⟩,
    ⟨"    if not svc.load_image(image_index):", _, rfl⟩,
    ⟨"        raise RuntimeError(f\"ida_dscu failed to load module: \x7bmodule\x7d\")", _, rfl⟩,
    ⟨"    return \"ida_dscu\"", _, rfl⟩,
    ⟨"", _, rfl⟩,
    ⟨"def legacy_dscu_load_region(ea):", _, rfl⟩,
    ⟨"    node = idaapi.netnode()", _, rfl⟩,
    ⟨"    node.create(\"$ dscu\")", _, rfl⟩,
    ⟨"    node.altset(3, ea)", _, rfl⟩,
    ⟨"    run_plugin_checked(\"dscu\", 2, f\"loading region \x7bea:#x\x7d\", True)", _, rfl⟩,
    ⟨"", _, rfl⟩,
    ⟨"def modern_dscu_load_region(ida_dscu, svc, ea):", _, rfl⟩,
    ⟨"    info = svc.locate_address(ea)", _, rfl⟩,
    ⟨"    region = info.region", _, rfl⟩,
    ⟨"    if region.type == ida_dscu.rt_invalid:", _, rfl⟩,
    ⟨"        raise RuntimeError(f\"DSC address is not mapped: \x7bea:#x\x7d\")", _, rfl⟩,
    ⟨"", _, rfl⟩,
    ⟨"    if region.type == ida_dscu.rt_image_entity:", _, rfl⟩,
    ⟨"        ok = svc.load_image(region.image_index)", _, rfl⟩,
    ⟨"    elif region.type == ida_dscu.rt_island:", _, rfl⟩,
    ⟨"        island = getattr(region, \"branch_island_number\", region.image_index)", _, rfl⟩,
    ⟨"        ok = svc.load_island(island)", _, rfl⟩,
    ⟨"    elif region.type == ida_dscu.rt_mapping:", _, rfl⟩,
    ⟨"        ok = svc.load_branch_mapping(region.start)", _, rfl⟩,
    ⟨"    elif region.type == ida_dscu.rt_got:", _, rfl⟩,
    ⟨"        ok = svc.load_got(region.start)", _, rfl⟩,
    ⟨"    elif region.type == ida_dscu.rt_unknown:", _, rfl⟩,
    ⟨"        ok = svc.load_unknown_region(region.start)", _, rfl⟩,
    ⟨"    elif region.type == ida_dscu.rt_cache_data:", _, rfl⟩,
    ⟨"        ok = svc.load_cache_data(region.start)", _, rfl⟩,
    ⟨"    else:", _, rfl⟩,
    ⟨"        raise RuntimeError(f\"DSC region type is not loadable: \x7bregion.type\x7d\")",
      _, rfl⟩,
    ⟨"", _, rfl⟩,
    ⟨"    if not ok:", _, rfl⟩,
    ⟨"        raise RuntimeError(f\"ida_dscu failed to load region at \x7bea:#x\x7d\")", _, rfl⟩,
    ⟨"", _, rfl⟩,
    ⟨"def dscu_load_region(ea):", _, rfl⟩,
    ⟨"    ida_dscu, svc = modern_dscu_service()", _, rfl⟩,
    ⟨"    if svc is None:", _, rfl⟩,
    ⟨"        legacy_dscu_load_region(ea)", _, rfl⟩,
    ⟨"        return \"legacy\"", _, rfl⟩,
    ⟨"", _, rfl⟩,
    ⟨"    modern_dscu_load_region(ida_dscu, svc, ea)", _, rfl⟩,
    ⟨"    return \"ida_dscu\"", _, rfl⟩]

def header : Literal := ⟨"import idaapi\n\tfrom idc import *\n\n\t", _, rfl⟩

def printBackend : Literal := ⟨"print(f\"[ida-mcp] dsc backend: \x7bdsc_backend\x7d\")\n", _, rfl⟩

def loadModule (module : List Char) : List Part :=
  [text ⟨"\n# Load primary module\nprint(", _, rfl⟩,
    .argument ⟨"[ida-mcp] loading module: ", _, rfl⟩ module,
    text ⟨"\ndsc_backend = dscu_load_module(", _, rfl⟩, .argument ⟨"", _, rfl⟩ module,
    text ⟨"\n", _, rfl⟩, text printBackend]

def loadFramework (fw : List Char) : List Part :=
  [text ⟨"\nprint(", _, rfl⟩, .argument ⟨"[ida-mcp] loading framework: ", _, rfl⟩ fw,
    text ⟨"\ndscu_load_module(", _, rfl⟩, .argument ⟨"", _, rfl⟩ fw, text ⟨"\n", _, rfl⟩]

/- ObjC and auto-analysis passes. -/
def analysis : List Char := scriptLines [
    ⟨"", _, rfl⟩,
    ⟨"# ObjC type analysis", _, rfl⟩,
    ⟨"print(\"[ida-mcp] analyzing objc types\")", _, rfl⟩,
    ⟨"load_and_run_plugin(\"objc\", 1)", _, rfl⟩,
    ⟨"print(\"[ida-mcp] analyzing NSConcreteGlobalBlock objects\")", _, rfl⟩,
    ⟨"load_and_run_plugin(\"objc\", 4)", _, rfl⟩,
    ⟨"", _, rfl⟩,
    ⟨"# Auto-analysis", _, rfl⟩,
    ⟨"print(\"[ida-mcp] performing auto-analysis...\")", _, rfl⟩,
    ⟨"auto_mark_range(0, BADADDR, AU_FINAL)", _, rfl⟩,
    ⟨"auto_wait()", _, rfl⟩,
    ⟨"", _, rfl⟩,
    ⟨"# Stack block analysis", _, rfl⟩,
    ⟨"print(\"[ida-mcp] analyzing NSConcreteStackBlock objects\")", _, rfl⟩,
    ⟨"load_and_run_plugin(\"objc\", 5)", _, rfl⟩,
    ⟨"", _, rfl⟩,
    ⟨"print(\"[ida-mcp] DSC module loading complete\")", _, rfl⟩]

def preamble : List Part := [text header, .text dscuPythonHelpers]

def loadParts (module : List Char) (frameworks : List (List Char)) : List Part :=
  preamble ++ [text ⟨"\n\t", _, rfl⟩] ++ loadModule module ++
    frameworks.flatMap loadFramework ++ [.text analysis]

def dscLoadScript (module : List Char) (frameworks : List (List Char)) : List Char :=
  render (loadParts module frameworks)

def lightAnalysis : List Char := scriptLines [
    ⟨"", _, rfl⟩,
    ⟨"# ObjC type analysis (lightweight, no full auto-analysis)", _, rfl⟩,
    ⟨"print(\"[ida-mcp] analyzing objc types\")", _, rfl⟩,
    ⟨"run_plugin_checked(\"objc\", 1, \"objc type analysis\", False)", _, rfl⟩,
    ⟨"print(\"[ida-mcp] analyzing NSConcreteGlobalBlock objects\")", _, rfl⟩,
    ⟨"run_plugin_checked(\"objc\", 4, \"objc global block analysis\", False)", _, rfl⟩,
    ⟨"", _, rfl⟩]

def addDylibCalls (module : List Char) : List Part :=
  [text ⟨"\n\n\tprint(", _, rfl⟩,
    .argument ⟨"[ida-mcp] loading additional dylib: ", _, rfl⟩ module,
    text ⟨"\n\tdsc_backend = dscu_load_module(", _, rfl⟩, .argument ⟨"", _, rfl⟩ module,
    text ⟨"\n\t", _, rfl⟩, text printBackend, .text lightAnalysis, text ⟨"print(", _, rfl⟩,
    .argument ⟨"[ida-mcp] dsc_add_dylib complete for: ", _, rfl⟩ module, text ⟨"\n", _, rfl⟩]

def addDylibParts (module : List Char) : List Part := preamble ++ addDylibCalls module

def dscAddDylibScript (module : List Char) : List Char := render (addDylibParts module)

def addRegionParts (ea : ℕ) : List Part :=
  let eaHex := '0' :: 'x' :: Nat.toDigits 16 ea
  preamble ++ [text ⟨"\n\n\tprint(\"[ida-mcp] loading region ", _, rfl⟩, .text eaHex,
    text ⟨"\")\n\tdsc_backend = dscu_load_region(", _, rfl⟩, .text (Nat.toDigits 10 ea),
    text ⟨")\n\t", _, rfl⟩, text printBackend,
    text ⟨"\tprint(\"[ida-mcp] dsc_add_region complete for: ", _, rfl⟩, .text eaHex,
    text ⟨"\")\n\t", _, rfl⟩]

def dscAddRegionScript (ea : ℕ) : List Char := render (addRegionParts ea)

/-! ### Escaped text -/

variable {s : List Char} {c : Char} {pre : Literal} {parts : List Part} {module : List Char}
  {frameworks : List (List Char)}

def escapeChar (c : Char) : List Char :=
  if c = '\\' then ['\\', '\\']
  else if c = '"' then ['\\', '"']
  else if c = '\n' then ['\\', 'n']
  else if c = '\r' then ['\\', 'r']
  else [c]

/- What one replacement puts in, the next ones leave alone. -/
theorem escapePythonString_eq (s : List Char) : escapePythonString s = s.flatMap escapeChar := by
  simp only [escapePythonString, replace, List.flatMap_assoc]
  congr 1
  funext c
  unfold escapeChar
  by_cases hslash : c = '\\'
  · simp [hslash]
  · by_cases hquote : c = '"'
    · simp [hquote]
    · by_cases hline : c = '\n'
      · simp [hline]
      · simp [hslash, hquote, hline]

theorem escapePythonString_cons (c : Char) (s : List Char) :
    escapePythonString (c :: s) = escapeChar c ++ escapePythonString s := by
  rw [escapePythonString_eq, escapePythonString_eq, List.flatMap_cons]

/- Four characters are written as a backslash and another one, the others as they are. -/
theorem escapeChar_cases (c : Char) :
    (∃ d, escapeChar c = ['\\', d] ∧ simpleEscape d = some [c] ∧ d ≠ '\r' ∧ d ≠ '\x00') ∨
      (escapeChar c = [c] ∧ c ≠ '\\' ∧ c ≠ '"' ∧ c ≠ '\n' ∧ c ≠ '\r') := by
  by_cases hslash : c = '\\'
  · subst hslash
    exact .inl ⟨'\\', by decide⟩
  by_cases hquote : c = '"'
  · subst hquote
    exact .inl ⟨'"', by decide⟩
  by_cases hline : c = '\n'
  · subst hline
    exact .inl ⟨'n', by decide⟩
  by_cases hreturn : c = '\r'
  · subst hreturn
    exact .inl ⟨'r', by decide⟩
  · refine .inr ⟨?_, hslash, hquote, hline, hreturn⟩
    simp only [escapeChar, hslash, hquote, hline, hreturn, if_false]

theorem denotes_escapeChar (hnul : c ≠ '\x00') : Denotes (escapeChar c) [c] := by
  obtain ⟨d, hchars, hescape, -, hd⟩ | ⟨hchars, hslash, hquote, hline, -⟩ := escapeChar_cases c
  · rw [hchars]
    exact denotes_escape hescape hd
  · rw [hchars]
    exact denotes_char hquote hslash hline hnul

/-- Between double quotes an escaped text stands for the text. -/
theorem denotes_escaped (hnul : '\x00' ∉ s) : Denotes (escapePythonString s) s := by
  induction s with
  | nil => exact Denotes.nil
  | cons c s ih =>
    rw [List.mem_cons, not_or] at hnul
    rw [escapePythonString_cons]
    exact (denotes_escapeChar (Ne.symm hnul.1)).append (ih hnul.2)

/- A word needs no escapes. -/
theorem escape_word (h : ∀ c ∈ s, isWordChar c = true) : escapePythonString s = s := by
  have hkeep : ∀ c ∈ s, escapeChar c = [c] := by
    intro c hc
    have hslash : c ≠ '\\' := word_ne (h c hc) rfl
    have hquote : c ≠ '"' := word_ne (h c hc) rfl
    have hline : c ≠ '\n' := word_ne (h c hc) rfl
    have hreturn : c ≠ '\r' := word_ne (h c hc) rfl
    simp only [escapeChar, hslash, hquote, hline, hreturn, if_false]
  rw [escapePythonString_eq, List.flatMap_congr hkeep, List.flatMap_singleton']

theorem head_escaped (s : List Char) : (escapePythonString s).head? ≠ some '"' := by
  cases s with
  | nil => decide
  | cons c s =>
    rw [escapePythonString_cons]
    obtain ⟨d, hchars, -⟩ | ⟨hchars, -, hquote, -⟩ := escapeChar_cases c
    · rw [hchars]
      simp
    · rw [hchars]
      simpa using hquote

theorem return_not_mem_escaped (s : List Char) : '\r' ∉ escapePythonString s := by
  rw [escapePythonString_eq, List.mem_flatMap]
  rintro ⟨c, -, hc⟩
  obtain ⟨d, hchars, -, hd, -⟩ | ⟨hchars, -, -, -, hreturn⟩ := escapeChar_cases c
  · rw [hchars] at hc
    simp [Ne.symm hd] at hc
  · rw [hchars] at hc
    exact hreturn (List.mem_singleton.mp hc).symm

/-! ### Scripts as read -/

/-- Text of whole tokens, or plain text in front of a value. -/
def Part.ready : Part → Bool
  | .text chars => endsInCode chars && '\r' ∉ chars
  | .argument pre _ => pre.chars.all fun c => c ∉ ['"', '\\', '\n', '\r', '\x00']

def Part.value : Part → List Char
  | .text _ => []
  | .argument _ value => value

/-- A part that can be read. -/
structure Part.Readable (part : Part) : Prop where
  ready : part.ready = true
  value : '\x00' ∉ part.value

def Part.pieces : Part → List Piece
  | .text chars => Python.pieces chars
  | .argument pre value => [.literal '"' (pre.chars ++ value), .char ')']

theorem denotes_plain {cs : List Char} (h : ∀ c ∈ cs, c ∉ ['"', '\\', '\n', '\r', '\x00']) :
    Denotes cs cs := by
  induction cs with
  | nil => exact Denotes.nil
  | cons c cs ih =>
    rw [List.forall_mem_cons] at h
    simp only [List.mem_cons, List.not_mem_nil, or_false, not_or] at h
    exact (denotes_char h.1.1 h.1.2.1 h.1.2.2.1 h.1.2.2.2.2).append (ih (by simpa using h.2))

theorem argument_plain {pre : Literal} {value : List Char}
    (h : (Part.argument pre value).ready = true) :
    ∀ c ∈ pre.chars, c ∉ ['"', '\\', '\n', '\r', '\x00'] := by
  rw [Part.ready, List.all_eq_true] at h
  intro c hc
  simpa using h c hc

theorem part_reads {part : Part} (h : part.Readable) :
    Reads step (.code []) part.render (.code []) part.pieces := by
  cases part with
  | text chars => exact reads_pieces (Bool.and_eq_true_iff.mp h.ready).1
  | argument pre value =>
    have hpre := argument_plain h.ready
    have hbody := (denotes_plain hpre).append (denotes_escaped h.value)
    have hhead : (pre.chars ++ escapePythonString value).head? ≠ some '"' := by
      cases hchars : pre.chars with
      | nil => exact head_escaped value
      | cons c cs =>
        intro hc
        rw [List.cons_append, List.head?_cons, Option.some.injEq] at hc
        exact hpre c (hchars ▸ List.mem_cons_self) (by simp [hc])
    exact reads_quote.append (reads_literal hbody hhead)

theorem parts_read (h : ∀ part ∈ parts, part.Readable) :
    Reads step (.code []) (render parts) (.code []) (parts.flatMap Part.pieces) := by
  induction parts with
  | nil => exact Reads.nil
  | cons part parts ih =>
    rw [List.forall_mem_cons] at h
    exact (part_reads h.1).append (ih h.2)

theorem return_not_mem_part {part : Part} (h : part.Readable) : '\r' ∉ part.render := by
  cases part with
  | text chars =>
    have hreturn := (Bool.and_eq_true_iff.mp h.ready).2
    simpa [Part.render] using hreturn
  | argument pre value =>
    have hpre : '\r' ∉ pre.chars := fun hmem => argument_plain h.ready '\r' hmem (by simp)
    simp [Part.render, hpre, return_not_mem_escaped]

/-- A script is read as its parts, each literal with the value that was put into it. -/
theorem lex_render (h : ∀ part ∈ parts, part.Readable) :
    lex (render parts) = some (parts.flatMap Part.pieces) := by
  apply lex_of_reads
  · apply newlines_eq_self
    rw [render, List.mem_flatMap]
    rintro ⟨part, hpart, hmem⟩
    exact return_not_mem_part (h part hpart) hmem
  · exact parts_read h

/-! ### The templates -/

/-- The parts of the templates, with no names in them. -/
def templates : List Part :=
  preamble ++ [text ⟨"\n\t", _, rfl⟩] ++ loadModule [] ++ loadFramework [] ++ [.text analysis] ++
    addDylibCalls []

/-- What is asked of a part does not depend on its value. -/
def Blind (f : Part → Bool) : Prop :=
  ∀ pre value, f (.argument pre value) = f (.argument pre [])

variable {f : Part → Bool}

theorem all_loadModule (hf : Blind f) (module : List Char) :
    (loadModule module).all f = (loadModule []).all f := by
  simp only [loadModule, List.all_cons, hf _ module]

theorem all_loadFramework (hf : Blind f) (fw : List Char) :
    (loadFramework fw).all f = (loadFramework []).all f := by
  simp only [loadFramework, List.all_cons, hf _ fw]

theorem all_addDylibCalls (hf : Blind f) (module : List Char) :
    (addDylibCalls module).all f = (addDylibCalls []).all f := by
  simp only [addDylibCalls, List.all_cons, hf _ module]

theorem load_of_templates (hf : Blind f) (h : templates.all f = true) (module : List Char)
    (frameworks : List (List Char)) : ∀ part ∈ loadParts module frameworks, f part = true := by
  rw [← List.all_eq_true]
  simp only [templates, List.all_append, Bool.and_eq_true] at h
  obtain ⟨⟨⟨⟨⟨hpreamble, hblank⟩, hmodule⟩, hframework⟩, hanalysis⟩, -⟩ := h
  have hframeworks : (frameworks.flatMap loadFramework).all f = true := by
    rw [List.all_flatMap, List.all_eq_true]
    intro fw _
    rw [all_loadFramework hf, hframework]
  simp only [loadParts, List.all_append, hpreamble, hblank, all_loadModule hf module, hmodule,
    hframeworks, hanalysis, Bool.and_self]

theorem addDylib_of_templates (hf : Blind f) (h : templates.all f = true) (module : List Char) :
    ∀ part ∈ addDylibParts module, f part = true := by
  rw [← List.all_eq_true]
  simp only [templates, List.all_append, Bool.and_eq_true] at h
  obtain ⟨⟨⟨⟨⟨hpreamble, -⟩, -⟩, -⟩, -⟩, hcalls⟩ := h
  simp only [addDylibParts, List.all_append, hpreamble, all_addDylibCalls hf module, hcalls,
    Bool.and_self]

set_option maxRecDepth 20000 in
theorem templates_ready : templates.all Part.ready = true := by decide +kernel

theorem ready_blind : Blind Part.ready := fun _ _ => rfl

theorem loadModule_values (hmodule : '\x00' ∉ module) :
    ∀ part ∈ loadModule module, '\x00' ∉ part.value := by
  simp [loadModule, text, Part.value, hmodule]

theorem loadFramework_values {fw : List Char} (hfw : '\x00' ∉ fw) :
    ∀ part ∈ loadFramework fw, '\x00' ∉ part.value := by
  simp [loadFramework, text, Part.value, hfw]

theorem load_values (hmodule : '\x00' ∉ module) (hfws : ∀ fw ∈ frameworks, '\x00' ∉ fw) :
    ∀ part ∈ loadParts module frameworks, '\x00' ∉ part.value := by
  intro part hpart
  simp only [loadParts, preamble, List.mem_append, List.mem_cons, List.not_mem_nil, or_false,
    List.mem_flatMap] at hpart
  rcases hpart with ((((rfl | rfl) | rfl) | hload) | ⟨fw, hfw, hload⟩) | rfl
  · exact List.not_mem_nil
  · exact List.not_mem_nil
  · exact List.not_mem_nil
  · exact loadModule_values hmodule part hload
  · exact loadFramework_values (hfws fw hfw) part hload
  · exact List.not_mem_nil

theorem addDylib_values (hmodule : '\x00' ∉ module) :
    ∀ part ∈ addDylibParts module, '\x00' ∉ part.value := by
  simp [addDylibParts, preamble, addDylibCalls, text, Part.value, hmodule]

theorem loadParts_readable (hmodule : '\x00' ∉ module) (hfws : ∀ fw ∈ frameworks, '\x00' ∉ fw) :
    ∀ part ∈ loadParts module frameworks, part.Readable := by
  intro part hpart
  exact ⟨load_of_templates ready_blind templates_ready module frameworks part hpart,
    load_values hmodule hfws part hpart⟩

theorem addDylibParts_readable (hmodule : '\x00' ∉ module) :
    ∀ part ∈ addDylibParts module, part.Readable := by
  intro part hpart
  exact ⟨addDylib_of_templates ready_blind templates_ready module part hpart,
    addDylib_values hmodule part hpart⟩

/-! ### No injection -/

/-- The code around the literals: their values are taken out. -/
def skeleton (ps : List Piece) : List Piece :=
  ps.map fun
    | .literal quote _ => .literal quote []
    | piece => piece

theorem skeleton_append (ps qs : List Piece) : skeleton (ps ++ qs) = skeleton ps ++ skeleton qs :=
  List.map_append

theorem skeleton_argument (pre : Literal) (value : List Char) :
    skeleton (Part.argument pre value).pieces = [.literal '"' [], .char ')'] := rfl

theorem skeleton_frameworks (frameworks : List (List Char)) :
    skeleton ((frameworks.flatMap loadFramework).flatMap Part.pieces) =
      skeleton (((frameworks.map fun _ => []).flatMap loadFramework).flatMap Part.pieces) := by
  induction frameworks with
  | nil => rfl
  | cons fw frameworks ih =>
    rw [List.map_cons, List.flatMap_cons, List.flatMap_cons, List.flatMap_append,
      List.flatMap_append, skeleton_append, skeleton_append, ih]
    simp only [loadFramework, List.flatMap_cons, skeleton_append, skeleton_argument]

theorem skeleton_load (module : List Char) (frameworks : List (List Char)) :
    skeleton ((loadParts module frameworks).flatMap Part.pieces) =
      skeleton ((loadParts [] (frameworks.map fun _ => [])).flatMap Part.pieces) := by
  simp only [loadParts, loadModule, List.flatMap_append, List.flatMap_cons, skeleton_append,
    skeleton_argument]
  rw [skeleton_frameworks]

theorem skeleton_addDylib (module : List Char) :
    skeleton ((addDylibParts module).flatMap Part.pieces) =
      skeleton ((addDylibParts []).flatMap Part.pieces) := by
  simp only [addDylibParts, addDylibCalls, List.flatMap_append, List.flatMap_cons,
    skeleton_append, skeleton_argument]

/-- Whatever the modules are called, a script is read as its template, each literal with the name
that was put into it, and the code around the literals does not depend on the names. -/
theorem dsc_scripts_read :
    (∀ module frameworks, '\x00' ∉ module → (∀ fw ∈ frameworks, '\x00' ∉ fw) →
      lex (dscLoadScript module frameworks) =
          some ((loadParts module frameworks).flatMap Part.pieces) ∧
        skeleton ((loadParts module frameworks).flatMap Part.pieces) =
          skeleton ((loadParts [] (frameworks.map fun _ => [])).flatMap Part.pieces)) ∧
      ∀ module, '\x00' ∉ module →
        lex (dscAddDylibScript module) = some ((addDylibParts module).flatMap Part.pieces) ∧
          skeleton ((addDylibParts module).flatMap Part.pieces) =
            skeleton ((addDylibParts []).flatMap Part.pieces) := by
  constructor
  · intro module frameworks hmodule hfws
    exact ⟨lex_render (loadParts_readable hmodule hfws), skeleton_load module frameworks⟩
  · intro module hmodule
    exact ⟨lex_render (addDylibParts_readable hmodule), skeleton_addDylib module⟩

theorem quoted_module_read :
    lex (dscAddDylibScript "\"); import os; print(\"".toList) =
      some ((addDylibParts "\"); import os; print(\"".toList).flatMap Part.pieces) :=
  (dsc_scripts_read.2 _ (by decide +kernel)).1

end IdaHeadless.Scripts
