import Mathlib.Data.List.Nodup

/-!
# Requests and their replies

Requests are sent for keys under ids, and the replies come back in any order. A
`Log` is the history of both. As long as no id and no key is used twice, a reply
settles one key for good.
-/

namespace Requests

variable {ι κ ρ : Type*}

structure Log (ι κ ρ : Type*) where
  /-- The requests, latest first: the id and the key it was sent for. -/
  sent : List (ι × κ)
  /-- The replies, latest first. -/
  replied : List (ι × ρ)

namespace Log

variable {log : Log ι κ ρ} {id id' : ι} {key key' : κ} {value value' : ρ}

def empty : Log ι κ ρ := ⟨[], []⟩

def send (log : Log ι κ ρ) (id : ι) (key : κ) : Log ι κ ρ :=
  { log with sent := (id, key) :: log.sent }

def reply (log : Log ι κ ρ) (id : ι) (value : ρ) : Log ι κ ρ :=
  { log with replied := (id, value) :: log.replied }

/-- The ids and keys that requests were sent for, and the ids that were answered. -/
def ids (log : Log ι κ ρ) : List ι := log.sent.map Prod.fst

def keys (log : Log ι κ ρ) : List κ := log.sent.map Prod.snd

def answered (log : Log ι κ ρ) : List ι := log.replied.map Prod.fst

@[simp] theorem ids_send : (log.send id key).ids = id :: log.ids := rfl

@[simp] theorem answered_send : (log.send id key).answered = log.answered := rfl

@[simp] theorem ids_reply : (log.reply id value).ids = log.ids := rfl

@[simp] theorem answered_reply : (log.reply id value).answered = id :: log.answered := rfl

/-- The key was asked for and there is no reply yet. -/
def Waiting (log : Log ι κ ρ) (key : κ) : Prop := ∃ id, (id, key) ∈ log.sent ∧ id ∉ log.answered

/-- The reply for the key is `value`. -/
def Settled (log : Log ι κ ρ) (key : κ) (value : ρ) : Prop :=
  ∃ id, (id, key) ∈ log.sent ∧ (id, value) ∈ log.replied

theorem mem_ids (h : (id, key) ∈ log.sent) : id ∈ log.ids := List.mem_map_of_mem h

theorem mem_keys (h : (id, key) ∈ log.sent) : key ∈ log.keys := List.mem_map_of_mem h

theorem mem_answered (h : (id, value) ∈ log.replied) : id ∈ log.answered := List.mem_map_of_mem h

/-- No id and no key is used twice, and only requests are answered, once each. -/
structure Valid (log : Log ι κ ρ) : Prop where
  ids : log.ids.Nodup
  keys : log.keys.Nodup
  answered : log.answered.Nodup
  asked : ∀ id ∈ log.answered, id ∈ log.ids

theorem valid_empty : (empty : Log ι κ ρ).Valid := ⟨.nil, .nil, .nil, nofun⟩

namespace Valid

theorem send (h : log.Valid) (hid : id ∉ log.ids) (hkey : key ∉ log.keys) :
    (log.send id key).Valid :=
  ⟨List.nodup_cons.mpr ⟨hid, h.ids⟩, List.nodup_cons.mpr ⟨hkey, h.keys⟩, h.answered,
    fun i hi => List.mem_cons_of_mem _ (h.asked i hi)⟩

theorem reply (h : log.Valid) (hid : id ∈ log.ids) (hnew : id ∉ log.answered) :
    (log.reply id value).Valid := by
  refine ⟨h.ids, h.keys, List.nodup_cons.mpr ⟨hnew, h.answered⟩, ?_⟩
  intro i hi
  rcases List.mem_cons.mp hi with rfl | hi
  · exact hid
  · exact h.asked i hi

/-- An id stands for one key. -/
theorem key_unique (h : log.Valid) (hk : (id, key) ∈ log.sent) (hk' : (id, key') ∈ log.sent) :
    key = key' :=
  congrArg Prod.snd (List.inj_on_of_nodup_map h.ids hk hk' rfl)

/-- A key was asked for under one id. -/
theorem id_unique (h : log.Valid) (hk : (id, key) ∈ log.sent) (hk' : (id', key) ∈ log.sent) :
    id = id' :=
  congrArg Prod.fst (List.inj_on_of_nodup_map h.keys hk hk' rfl)

/-! ## What the operations change -/

theorem waiting_send (h : log.Valid) (hid : id ∉ log.ids) :
    (log.send id key).Waiting key' ↔ key' = key ∨ log.Waiting key' := by
  constructor
  · rintro ⟨i, hk, hnot⟩
    rcases List.mem_cons.mp hk with heq | hk
    · cases heq
      exact .inl rfl
    · exact .inr ⟨i, hk, hnot⟩
  · rintro (rfl | ⟨i, hk, hnot⟩)
    · exact ⟨id, List.mem_cons_self, fun hr => hid (h.asked id hr)⟩
    · exact ⟨i, List.mem_cons_of_mem _ hk, hnot⟩

theorem settled_send (h : log.Valid) (hid : id ∉ log.ids) :
    (log.send id key).Settled key' value ↔ log.Settled key' value := by
  constructor
  · rintro ⟨i, hk, hr⟩
    rcases List.mem_cons.mp hk with heq | hk
    · cases heq
      exact absurd (h.asked id (mem_answered hr)) hid
    · exact ⟨i, hk, hr⟩
  · rintro ⟨i, hk, hr⟩
    exact ⟨i, List.mem_cons_of_mem _ hk, hr⟩

theorem waiting_reply (h : log.Valid) (hk : (id, key) ∈ log.sent) :
    (log.reply id value).Waiting key' ↔ key' ≠ key ∧ log.Waiting key' := by
  constructor
  · rintro ⟨i, hk', hnot⟩
    rw [answered_reply, List.mem_cons, not_or] at hnot
    refine ⟨?_, i, hk', hnot.2⟩
    rintro rfl
    exact hnot.1 (h.id_unique hk' hk)
  · rintro ⟨hne, i, hk', hnot⟩
    refine ⟨i, hk', ?_⟩
    rw [answered_reply, List.mem_cons, not_or]
    refine ⟨?_, hnot⟩
    rintro rfl
    exact hne (h.key_unique hk' hk)

theorem settled_reply (h : log.Valid) (hk : (id, key) ∈ log.sent) :
    (log.reply id value).Settled key' value' ↔
      (key' = key ∧ value' = value) ∨ log.Settled key' value' := by
  constructor
  · rintro ⟨i, hk', hr⟩
    rcases List.mem_cons.mp hr with heq | hr
    · cases heq
      exact .inl ⟨h.key_unique hk' hk, rfl⟩
    · exact .inr ⟨i, hk', hr⟩
  · rintro (⟨rfl, rfl⟩ | ⟨i, hk', hr⟩)
    · exact ⟨id, hk, List.mem_cons_self⟩
    · exact ⟨i, hk', List.mem_cons_of_mem _ hr⟩

end Valid

end Log

end Requests
