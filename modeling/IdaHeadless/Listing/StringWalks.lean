import IdaHeadless.Listing.Pages
import IdaHeadless.Listing.StringIndex

/-!
# Walks over the string index (handlers/strings.rs)

Several clients share one index. A client that follows the offsets of its pages reads every string
of the index that its first page built, each of them once and in order, as long as nobody else
rebuilds the index in between. What analysis changes meanwhile makes no difference.
-/

namespace IdaHeadless.Listing

open Paging

variable {kit : NextRule} {engine : SearchEngine} {r : ScanRequest} {db : StringIdb}
  {index items : List (ℕ × List Char)} {keeps : ℕ × List Char → Bool} {offset limit : ℕ}

/-! ### One page -/

/-- The open database as a rebuild would read it now, and the index that the tools share. -/
structure StringWorld where
  idb : Option StringIdb
  index : List (ℕ × List Char)

/- `analyze` is whatever changes the database but not the index. -/
inductive StringAct where
  | analyze (db : StringIdb)
  | openDatabase (db : StringIdb) (index : List (ℕ × List Char))
  | closeDatabase
  | warmup (buildCaches : Bool)
  | scan (r : ScanRequest)

def StringAct.apply (kit : NextRule) (engine : SearchEngine) (a : StringAct) (w : StringWorld) :
    StringWorld :=
  match a with
  | .analyze db => { w with idb := w.idb.map fun _ => db }
  | .openDatabase db index => ⟨some db, index⟩
  | .closeDatabase => ⟨none, []⟩
  | .warmup buildCaches => { w with index := handleWarmup w.idb buildCaches w.index }
  | .scan r => { w with index := (serve kit engine w.idb r w.index).2 }

/- Neither a scan from the start, nor a warmup of the caches, nor another database. -/
def StringAct.quiet : StringAct → Bool
  | .analyze _ => true
  | .openDatabase .. | .closeDatabase => false
  | .warmup buildCaches => !buildCaches
  | .scan r => r.offset ≠ 0

/-- A database is open, and the index is the one that a first page has built. -/
def Settled (index : List (ℕ × List Char)) (w : StringWorld) : Prop :=
  w.idb.isSome = true ∧ w.index = index

end IdaHeadless.Listing
