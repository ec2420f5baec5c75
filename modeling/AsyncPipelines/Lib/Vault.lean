import AsyncPipelines.Lib.ObjectStore

/-!
Records that keep what they were made from by deep copies: a client edits its own objects as it
likes, guests edit theirs, and no object is ever shared with a record.
-/

namespace ObjectStore

variable {κ τ : Type}

inductive Party
  | client
  | record (i : Nat)
  | guest (i : Nat)
  deriving DecidableEq

/-- What a record holds, and what it was made from: a value, and the store at that time. -/
structure Snapshot (κ τ : Type) where
  held : Value τ
  store : Store κ τ
  origin : Value τ

variable {home : Nat → Party} {h k : Store κ τ} {env : Registers τ} {made : List (Snapshot κ τ)}
  {s : Snapshot κ τ} {i : Nat} {p q : Party} {v : Value τ}

structure Recorded (home : Nat → Party) (h : Store κ τ) (i : Nat) (s : Snapshot κ τ) : Prop where
  owned : Owned home h (.record i) s.held
  same : ∃ link, AlikeIn home (.record i) link s.store h ∧ s.origin.Linked link s.held

theorem Recorded.contents (recorded : Recorded home h i s) : Same s.store s.origin h s.held := by
  obtain ⟨link, alike, linked⟩ := recorded.same
  exact ⟨link, alike.toAlike, linked⟩

theorem Recorded.later (recorded : Recorded home h i s) (within : Within home q h k) (other : q ≠ .record i) :
    Recorded (settle home h.length q) k i s := by
  obtain ⟨link, alike, linked⟩ := recorded.same
  exact ⟨recorded.owned.later within.grown, link, alike.later within other.symm, linked⟩

structure Vault (home : Nat → Party) (h : Store κ τ) (env : Registers τ) (made : List (Snapshot κ τ)) :
    Prop where
  closed : Closed home h
  client : ∀ v ∈ env, Owned home h .client v
  records : ∀ i s, made[i]? = some s → Recorded home h i s

namespace Vault

theorem start : Vault (fun _ => .client) ([] : Store κ τ) [] [] :=
  ⟨fun l o read => by simp at read, by simp, by simp⟩

theorem later (vault : Vault home h env made) (within : Within home q h k) (other : ∀ i, q ≠ .record i) :
    Vault (settle home h.length q) k env made :=
  ⟨within.closed, fun v member => (vault.client v member).later within.grown,
    fun i s found => (vault.records i s found).later within (other i)⟩

theorem forget {fewer : Registers τ} (vault : Vault home h env made) (among : ∀ v ∈ fewer, v ∈ env) :
    Vault home h fewer made :=
  ⟨vault.closed, fun v member => vault.client v (among v member), vault.records⟩

theorem edit (vault : Vault home h env made) (edit : Instr κ τ) :
    Vault (settle home h.length .client) (exec h env edit).1 (exec h env edit).2.1 made := by
  obtain ⟨within, owned⟩ := exec_within vault.closed vault.client edit
  have kept := vault.later within (by simp)
  exact ⟨kept.closed, owned, kept.records⟩

theorem add (vault : Vault home h env made) (within : Within home (.record made.length) h k)
    (new : Recorded (settle home h.length (.record made.length)) k made.length s) :
    Vault (settle home h.length (.record made.length)) k env (made ++ [s]) := by
  refine ⟨within.closed, fun v member => (vault.client v member).later within.grown, fun i t found => ?_⟩
  by_cases old : i < made.length
  · rw [List.getElem?_append_left old] at found
    refine (vault.records i t found).later within ?_
    simp only [ne_eq, Party.record.injEq]
    omega
  · rw [List.getElem?_append_right (Nat.le_of_not_lt old), List.getElem?_singleton] at found
    split at found
    · rename_i last
      obtain rfl : i = made.length := by omega
      exact Option.some.inj found ▸ new
    · simp at found

theorem take (vault : Vault home h env made) (own : v ∈ env) {held : Value τ}
    (copied : deepcopy h v = some (k, held)) :
    Vault (settle home h.length (.record made.length)) k env (made ++ [⟨held, h, v⟩]) := by
  obtain ⟨k', held', link, copies, alike, linked, above, within, _, owned⟩ :=
    deepcopy_spec vault.closed (vault.client v own) (Party.record made.length)
  obtain ⟨rfl, rfl⟩ := Prod.mk.inj (Option.some.inj (copies.symm.trans copied))
  exact vault.add within ⟨owned, link, ⟨alike, fun member => settle_new (above _ _ member)⟩, linked⟩

theorem remake (vault : Vault home h env made) (found : made[i]? = some s) {held : Value τ}
    (copied : deepcopy h s.held = some (k, held)) :
    Vault (settle home h.length (.record made.length)) k env (made ++ [{ s with held := held }]) := by
  have recorded := vault.records i s found
  obtain ⟨k', held', link, copies, alike, linked, above, within, _, owned⟩ :=
    deepcopy_spec vault.closed recorded.owned (Party.record made.length)
  obtain ⟨rfl, rfl⟩ := Prod.mk.inj (Option.some.inj (copies.symm.trans copied))
  obtain ⟨origin, before, start⟩ := recorded.same
  refine vault.add within ⟨owned, _, ⟨before.toAlike.trans alike, ?_⟩, start.trans linked⟩
  rintro l m ⟨n, _, member⟩
  exact settle_new (above n m member)

theorem give (vault : Vault home h env made) (found : made[i]? = some s)
    (copied : deepcopy h s.held = some (k, v)) :
    Vault (settle home h.length .client) k (env ++ [v]) made := by
  obtain ⟨k', held, link, copies, _, _, _, within, _, owned⟩ :=
    deepcopy_spec vault.closed (vault.records i s found).owned Party.client
  obtain ⟨rfl, rfl⟩ := Prod.mk.inj (Option.some.inj (copies.symm.trans copied))
  have kept := vault.later within (by simp)
  refine ⟨kept.closed, fun w member => ?_, kept.records⟩
  rcases List.mem_append.mp member with member | member
  · exact kept.client w member
  · obtain rfl : w = held := by simpa using member
    exact owned

theorem place {o : Obj κ τ} (vault : Vault home h env made) (held : ∀ cell ∈ o.cells, Owned home h .client cell.2) :
    Vault (settle home h.length .client) (h ++ [o]) (env ++ [.ref h.length]) made := by
  obtain ⟨within, new⟩ := append_within vault.closed held
  have kept := vault.later within (by simp)
  refine ⟨kept.closed, fun w member => ?_, kept.records⟩
  rcases List.mem_append.mp member with member | member
  · exact kept.client w member
  · obtain rfl : w = .ref h.length := by simpa using member
    exact new

end Vault

end ObjectStore
