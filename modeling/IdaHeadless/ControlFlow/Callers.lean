import IdaHeadless.ControlFlow.CallGraph

/-!
# Callers (handlers/controlflow.rs)

The callers of a function are the functions in which the call references to its start address
stand. Callees are found on the way through a function's body, callers through the references
that the database keeps at the target.
-/

namespace IdaHeadless.ControlFlow

open Address Unseen

structure CallerXref where
  source : ℕ
  type : XRefType

def CallerXref.isCall (xref : CallerXref) : Bool := xref.type.isCall

/-- What the callers are read from besides. -/
structure CallerIdb extends CallIdb where
  xrefsTo : ℕ → List CallerXref

def visitCaller (db : CallerIdb) (st : Callees) (xref : CallerXref) : Callees :=
  if xref.isCall then
    (db.functionAt xref.source).elim st fun func => st.insert func.startAddress func.info
  else st

def handleCallers (idb : Option CallerIdb) (addr : ℕ) : Except ToolError (List FunctionInfo) :=
  match idb with
  | none => .error .noDatabaseOpen
  | some db =>
    match db.functionAt addr with
    | none => .error (.functionNotFound addr)
    | some func => .ok ((db.xrefsTo func.startAddress).foldl (visitCaller db) ⟨[], []⟩).callees

variable {db : CallerIdb} {addr : ℕ}

/-- The entries of the functions that call one, as often as they do. -/
def callsTo (db : CallerIdb) (addr : ℕ) : List ℕ :=
  (db.functionAt addr).elim [] fun func =>
    ((db.xrefsTo func.startAddress).filter CallerXref.isCall).filterMap fun xref =>
      (db.functionAt xref.source).map CallFunction.startAddress

def callersOf (db : CallerIdb) (addr : ℕ) : List ℕ := (callsTo db addr).eraseDups

theorem callersOf_spec (db : CallerIdb) (addr : ℕ) :
    (callersOf db addr).Nodup ∧ ∀ x, x ∈ callersOf db addr ↔ x ∈ callsTo db addr :=
  ⟨nodup_eraseDups _, fun _ => List.mem_eraseDups⟩

theorem callersOf_lt {entry : ℕ} (h : entry ∈ callersOf db addr) : entry < 2 ^ 64 := by
  have hcall := ((callersOf_spec db addr).2 entry).mp h
  rw [callsTo] at hcall
  cases hfunc : db.functionAt addr with
  | none =>
    rw [hfunc] at hcall
    cases hcall
  | some func =>
    rw [hfunc, Option.elim_some] at hcall
    obtain ⟨xref, -, hcaller⟩ := List.mem_filterMap.mp hcall
    obtain ⟨caller, -, rfl⟩ := Option.map_eq_some_iff.mp hcaller
    exact caller.start_lt

theorem foldl_visitCaller (xrefs : List CallerXref) (st : Callees)
    (h : st.callees.map FunctionInfo.address = st.seen.map hexAddr) :
    (xrefs.foldl (visitCaller db) st).callees.map FunctionInfo.address =
      (((xrefs.filter CallerXref.isCall).filterMap fun xref =>
          (db.functionAt xref.source).map CallFunction.startAddress).foldl insertNew
        st.seen).map hexAddr := by
  induction xrefs generalizing st with
  | nil => exact h
  | cons xref xrefs ih =>
    rw [List.foldl_cons]
    by_cases hcall : xref.isCall = true
    · rw [List.filter_cons_of_pos hcall]
      cases hfunc : db.functionAt xref.source with
      | none =>
        rw [List.filterMap_cons_none (by rw [hfunc]; rfl), visitCaller, if_pos hcall, hfunc]
        exact ih st h
      | some caller =>
        have hinfo : caller.info.address = hexAddr caller.startAddress := rfl
        rw [List.filterMap_cons_some (by rw [hfunc]; rfl), visitCaller, if_pos hcall, hfunc,
          Option.elim_some, ih _ (insert_addresses h hinfo), insert_seen]
        rfl
    · rw [List.filter_cons_of_neg hcall, visitCaller, if_neg hcall]
      exact ih st h

/- Each caller stands once, where it was first found. -/
theorem handleCallers_eq (db : CallerIdb) (addr : ℕ) :
    ((handleCallers (some db) addr).toOption.getD []).map FunctionInfo.address =
      (callersOf db addr).map hexAddr := by
  rw [callersOf, callsTo]
  cases hfunc : db.functionAt addr with
  | none =>
    simp only [handleCallers, hfunc]
    rfl
  | some func =>
    simp only [handleCallers, hfunc]
    rw [Option.elim_some, ← foldl_insertNew_nil]
    exact foldl_visitCaller (db.xrefsTo func.startAddress) ⟨[], []⟩ rfl

end IdaHeadless.ControlFlow
