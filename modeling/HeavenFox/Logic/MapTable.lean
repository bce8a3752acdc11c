/-
# HeavenFox.Logic.MapTable -- tables that stand for a map

A table is kept in states `σ` by three calls, any of which may stop with an error: `add`
binds a key to a value, `del` removes one, `lookUp` finds one.  Adding may fail for lack of
memory, which the table counts; `ι` is what the memory gives to a call.

Whoever relates the states to maps from keys to values, one lemma for each call (`Refines`),
gets the statement about whole runs.
-/
import HeavenFox.Logic.Run
import Mathlib.Logic.Function.Basic

namespace HeavenFox.Logic

/-- A table with keys `κ`, values `β` and errors `ε`. -/
structure MapTable (σ κ β ι ε : Type*) where
  add : σ → κ → β → ι → Except ε σ
  del : σ → κ → Except ε σ
  lookUp : σ → κ → Except ε (Option β)
  refused : σ → Nat

/-- A call, with what the memory gives it. -/
inductive MapMove (κ β ι : Type*) where
  | add (key : κ) (value : β) (memory : ι)
  | del (key : κ)
  | lookUp (key : κ)

/-- A table next to the map it should be. -/
structure MapRun (σ κ β : Type*) where
  table : σ
  map : κ → Option β

variable {σ κ β ι ε : Type*}

/-- What a call does to the table. -/
def MapTable.call (t : MapTable σ κ β ι ε) (s : σ) : MapMove κ β ι → Except ε σ
  | .add key value memory => t.add s key value memory
  | .del key => t.del s key
  | .lookUp key => (t.lookUp s key).map fun _ => s

/-- Looking up any key in the table gives what the map has. -/
def MapTable.Agrees (t : MapTable σ κ β ι ε) (s : MapRun σ κ β) : Prop :=
  ∀ key, t.lookUp s.table key = .ok (s.map key)

variable [DecidableEq κ]

/-- What a call is for: an absent key is bound, unless memory was refused; a present one stays as it
is; deleting removes the key. -/
def mapCall (map : κ → Option β) (refused : Bool) : MapMove κ β ι → κ → Option β
  | .add key value _ =>
    if (map key).isNone && !refused then Function.update map key (some value) else map
  | .del key => Function.update map key none
  | .lookUp _ => map

/-- One call on both. -/
def MapTable.step (t : MapTable σ κ β ι ε) (s : MapRun σ κ β) (move : MapMove κ β ι) :
    Option (MapRun σ κ β) :=
  match t.call s.table move with
  | .error _ => none
  | .ok table =>
    some { table, map := mapCall s.map (decide (t.refused table ≠ t.refused s.table)) move }

/-- What has to be shown for each call. -/
structure MapTable.Refines (t : MapTable σ κ β ι ε) (Repr : σ → (κ → Option β) → Prop) : Prop where
  add : ∀ s map key value memory, Repr s map → ∃ s', t.add s key value memory = .ok s' ∧
    Repr s' (if map key = none ∧ t.refused s' = t.refused s then
      Function.update map key (some value) else map)
  del : ∀ s map key, Repr s map → ∃ s', t.del s key = .ok s' ∧
    Repr s' (Function.update map key none)
  lookUp : ∀ s map key, Repr s map → t.lookUp s key = .ok (map key)

variable {t : MapTable σ κ β ι ε} {Repr : σ → (κ → Option β) → Prop}

theorem MapTable.Refines.step (h : t.Refines Repr) (s : MapRun σ κ β) (move : MapMove κ β ι)
    (hs : Repr s.table s.map) : ∃ s', t.step s move = some s' ∧ Repr s'.table s'.map := by
  cases move with
  | add key value memory =>
    obtain ⟨table, hcall, hrepr⟩ := h.add s.table s.map key value memory hs
    refine ⟨_, by rw [MapTable.step, MapTable.call, hcall], ?_⟩
    simpa [mapCall] using hrepr
  | del key =>
    obtain ⟨table, hcall, hrepr⟩ := h.del s.table s.map key hs
    exact ⟨_, by rw [MapTable.step, MapTable.call, hcall], hrepr⟩
  | lookUp key =>
    have hcall := h.lookUp s.table s.map key hs
    exact ⟨_, by rw [MapTable.step, MapTable.call, hcall]; rfl, hs⟩

/-- **A table refines its map over whole runs**: every call returns, and at every moment the table
and the map agree. -/
theorem MapTable.Refines.run (h : t.Refines Repr) {s : MapRun σ κ β} (hs : Repr s.table s.map)
    (moves : List (MapMove κ β ι)) :
    (∃ s', exec t.step s moves = some s') ∧ Always t.step t.Agrees s moves := by
  obtain ⟨hexec, halways⟩ := run_of_total h.step hs
  exact ⟨hexec, halways.imp fun s' hs' key => h.lookUp s'.table s'.map key hs'⟩

end HeavenFox.Logic
