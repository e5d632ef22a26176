import HeadFwd.Portal.Store

/-! # Restart after an interrupted save

A crash inside a save leaves a part of the new contents in the file. The next
start reads it back, and a file that does not parse leaves the gate without a
store, which admits everybody. The gate is safe exactly after a complete write.
-/

namespace HeadFwd.Portal

open Text Net

/-- The gate of a portal restarted over the given file content, after its bootstrap saw the given
users. -/
def restartedGate (stateDir data : Bytes) (users : Option (List User))
    (nodes : Option (List Node)) (r : Request) : Option (Option Bytes) :=
  adminOnly ((serverStore stateDir (.ok data)).map fun admins => Store.bootstrap admins users)
    nodes r

/-- The restarted gate admits only local addresses and users of the old or the new set. -/
def CrashSafe (stateDir : Bytes) (old new : Admins) (data : Bytes) : Prop :=
  ∀ users nodes r, (restartedGate stateDir data users nodes r).isSome →
    isLocalIP (extractIP r) ∨
      resolveUser (extractIP r) nodes ≠ [] ∧ resolveUser (extractIP r) nodes ∈ old ∪ new

theorem sanitize_ne_nil {s : Bytes} (h : s ≠ []) : sanitize s ≠ [] := by
  intro hs
  apply h
  have hr : ∀ r ∈ runes s, r.Wf := runes_wf s
  cases hl : runes s with
  | nil =>
    cases s with
    | nil => rfl
    | cons a s =>
      rw [runes.eq_def] at hl
      simp only at hl
      split at hl <;> cases hl
  | cons r rs =>
    have hb : r.bytes = [] := by
      simp only [sanitize, hl, List.flatMap_cons, List.append_eq_nil_iff] at hs
      exact hs.1
    have hw := hr r (by simp [hl])
    cases r with
    | ascii b => cases hb
    | multi bs => subst hb; simp [Rune.Wf] at hw
    | invalid => cases hb

/-- A request of a tailnet peer that sends no forwarding header. -/
theorem extractIP_tailnetRequest : extractIP (tailnetRequest []) = str "100.64.0.7" := by decide

theorem isLocalIP_tailnetRequest : isLocalIP (extractIP (tailnetRequest [])) = false := by decide

theorem adminOnly_tailnetRequest {admins : Admins} {u : Bytes} (hu : u ≠ []) (h : u ∈ admins) :
    (adminOnly (some admins) (some [⟨[str "100.64.0.7"], u⟩]) (tailnetRequest [])).isSome := by
  apply admits_iff.mpr
  rw [extractIP_tailnetRequest]
  simp [resolveUser, hu, h]

theorem mem_of_crashSafe {stateDir data : Bytes} {old new admins : Admins}
    (h : CrashSafe stateDir old new data) (users : Option (List User))
    (hs : (serverStore stateDir (.ok data)).map (fun a => Store.bootstrap a users) = some admins)
    {u : Bytes} (hu : u ≠ []) (hm : u ∈ admins) : u ∈ old ∪ new := by
  have ha := adminOnly_tailnetRequest hu hm
  rw [← hs] at ha
  rcases h users _ _ ha with hl | ⟨-, hr⟩
  · rw [isLocalIP_tailnetRequest] at hl
    cases hl
  · rw [extractIP_tailnetRequest] at hr
    simpa [resolveUser] using hr

theorem not_crashSafe_of_no_store {stateDir data : Bytes} {old new : Admins}
    (hs : serverStore stateDir (.ok data) = none) : ¬ CrashSafe stateDir old new data := by
  intro h
  have ha : (restartedGate stateDir data none none (tailnetRequest [])).isSome := by
    simp [restartedGate, hs, adminOnly]
  rcases h _ _ _ ha with hl | ⟨hr, -⟩
  · rw [isLocalIP_tailnetRequest] at hl
    cases hl
  · exact hr rfl

theorem bootstrap_of_nonempty {admins : Admins} (h : admins.Nonempty)
    (users : Option (List User)) : Store.bootstrap admins users = admins := by
  simp [Store.bootstrap, Store.hasAny, h]

/-- A set written out empty is refilled by the bootstrap with whoever is oldest. -/
theorem not_crashSafe_of_empty {stateDir : Bytes} (hd : stateDir ≠ []) (old : Admins) :
    ¬ CrashSafe stateDir old ∅ (Store.contents ∅) := by
  intro h
  obtain ⟨u, hu⟩ := Infinite.exists_notMem_finset (old ∪ {[], str "headfwd-server"})
  simp only [Finset.mem_union, Finset.mem_insert, Finset.mem_singleton, not_or] at hu
  obtain ⟨hold, hne, hsys⟩ := hu
  have hs : (serverStore stateDir (.ok (Store.contents ∅))).map
      (fun a => Store.bootstrap a (some [⟨u, []⟩])) = some {u} := by
    rw [serverStore, if_pos hd, Store.load_contents]
    simp [Store.bootstrap, Store.hasAny, Store.oldestUser, Store.older, hsys]
  have := mem_of_crashSafe h _ hs hne (Finset.mem_singleton_self u)
  simp [hold] at this

/-- A portal restarted over what a save of `new` left behind keeps its gate exactly when the whole
contents were written, the set is not empty, and the names come back as names of the old
or the new set. -/
theorem crashSafe_iff {stateDir : Bytes} (hd : stateDir ≠ []) (old new : Admins) {data : Bytes}
    (hp : data <+: Store.contents new) :
    CrashSafe stateDir old new data ↔
      data = Store.contents new ∧ new.Nonempty ∧ ∀ n ∈ new, sanitize n ∈ old ∪ new := by
  have hstore : serverStore stateDir (.ok (Store.contents new)) = some (new.image sanitize) := by
    rw [serverStore, if_pos hd, Store.load_contents]
  constructor
  · intro h
    have hdata : data = Store.contents new := by
      by_contra hne
      have hk : data.length < (Store.contents new).length :=
        lt_of_le_of_ne hp.length_le fun he => hne (hp.eq_of_length he)
      have hs : serverStore stateDir (.ok data) = none := by
        rw [serverStore, if_pos hd, List.prefix_iff_eq_take.mp hp, Store.load_take hk]
      exact not_crashSafe_of_no_store hs h
    subst hdata
    have hn : new.Nonempty := by
      rw [Finset.nonempty_iff_ne_empty]
      rintro rfl
      exact not_crashSafe_of_empty hd old h
    refine ⟨rfl, hn, fun n hnew => ?_⟩
    by_cases hnil : n = []
    · subst hnil
      exact Finset.mem_union_right _ hnew
    · have hb := bootstrap_of_nonempty (hn.image sanitize) none
      exact mem_of_crashSafe h none (by rw [hstore, Option.map_some, hb])
        (sanitize_ne_nil hnil) (Finset.mem_image_of_mem _ hnew)
  · rintro ⟨rfl, hn, hmem⟩ users nodes r ha
    rw [restartedGate, hstore, Option.map_some, bootstrap_of_nonempty (hn.image sanitize)] at ha
    rcases admits_iff.mp ha with hl | ⟨hne, hu⟩
    · exact .inl hl
    · obtain ⟨n, hnew, he⟩ := Finset.mem_image.mp hu
      exact .inr ⟨hne, he ▸ hmem n hnew⟩

theorem crashSafe_complete_write :
    CrashSafe (str "/state") {str "alice"} {str "alice", str "bob"}
      (Store.contents {str "alice", str "bob"}) :=
  (crashSafe_iff (by decide) _ _ List.prefix_rfl).mpr ⟨rfl, by simp, by decide⟩

theorem not_crashSafe_truncated :
    ([] : Bytes) <+: Store.contents {str "alice", str "bob"} ∧
      ¬ CrashSafe (str "/state") {str "alice"} {str "alice", str "bob"} [] ∧
      (restartedGate (str "/state") [] none none (tailnetRequest [])).isSome := by
  refine ⟨List.nil_prefix, not_crashSafe_of_no_store ?_, ?_⟩
  · decide
  · decide

end HeadFwd.Portal
