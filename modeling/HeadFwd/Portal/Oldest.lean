import HeadFwd.Portal.Store
import HeadFwd.Text.Timestamp

/-! # The oldest user

The search for the oldest user compares the spellings of the times at which the
users were created. It finds the smallest spelling, which is that of an earliest
user unless another one created in the same second is spelled with more digits.
-/

namespace HeadFwd.Portal

open Text

/-- A user as Headscale lists it, with the instant at which it was created. -/
structure Stamped where
  name : Bytes
  created : Timestamp

namespace Stamped

def user (p : Stamped) : User := ⟨p.name, p.created.text⟩

def Eligible (p : Stamped) : Prop := p.name ≠ str "headfwd-server"

/-- No one among the users that can be promoted was created earlier. -/
def Earliest (ps : List Stamped) (p : Stamped) : Prop :=
  p.Eligible ∧ ∀ q ∈ ps, q.Eligible → p.created.instant ≤ q.created.instant

end Stamped

namespace Store

theorem older_system {u : User} (hu : u.name = str "headfwd-server") (o : Option User) :
    older o u = o := if_pos hu

theorem older_eligible {u : User} (hu : u.name ≠ str "headfwd-server") (o : Option User) :
    older o u = some (match o with
      | none => u
      | some o => if u.createdAt < o.createdAt then u else o) := by
  cases o with
  | none => exact if_neg hu
  | some o =>
    refine (if_neg hu).trans ?_
    dsimp only
    split_ifs <;> rfl

/-- The user that the search returns, if any. -/
theorem oldestUser_cases (users : List User) :
    (oldestUser users = none ∧ ∀ u ∈ users, u.name = str "headfwd-server") ∨
    ∃ v ∈ users, oldestUser users = some v ∧ v.name ≠ str "headfwd-server" ∧
      ∀ u ∈ users, u.name ≠ str "headfwd-server" → ¬ u.createdAt < v.createdAt := by
  induction users using List.reverseRecOn with
  | nil => exact .inl ⟨rfl, by simp⟩
  | append_singleton users u ih =>
    have hfold : oldestUser (users ++ [u]) = older (oldestUser users) u := List.foldl_append
    by_cases hu : u.name = str "headfwd-server"
    · rw [hfold, older_system hu]
      rcases ih with ⟨hnone, hall⟩ | ⟨v, hv, hsome, hne, hall⟩
      · refine .inl ⟨hnone, fun w hw => ?_⟩
        rcases List.mem_append.mp hw with hw | hw
        · exact hall w hw
        · exact List.mem_singleton.mp hw ▸ hu
      · refine .inr ⟨v, List.mem_append_left _ hv, hsome, hne, fun w hw hw' => ?_⟩
        rcases List.mem_append.mp hw with hw | hw
        · exact hall w hw hw'
        · exact absurd (List.mem_singleton.mp hw ▸ hu) hw'
    · right
      rw [hfold, older_eligible hu]
      rcases ih with ⟨hnone, hall⟩ | ⟨v, hv, hsome, hne, hall⟩
      · refine ⟨u, by simp, by rw [hnone], hu, fun w hw hw' => ?_⟩
        rcases List.mem_append.mp hw with hw | hw
        · exact absurd (hall w hw) hw'
        · exact List.mem_singleton.mp hw ▸ lt_irrefl _
      · rw [hsome]
        by_cases hlt : u.createdAt < v.createdAt
        · refine ⟨u, by simp, congrArg some (if_pos hlt), hu, fun w hw hw' hwu => ?_⟩
          rcases List.mem_append.mp hw with hw | hw
          · exact hall w hw hw' (hwu.trans hlt)
          · exact lt_irrefl _ (List.mem_singleton.mp hw ▸ hwu)
        · refine ⟨v, List.mem_append_left _ hv, congrArg some (if_neg hlt), hne, fun w hw hw' => ?_⟩
          rcases List.mem_append.mp hw with hw | hw
          · exact hall w hw hw'
          · exact List.mem_singleton.mp hw ▸ hlt

/-- The bootstrap of an empty store promotes the user that the search returns. -/
theorem bootstrap_empty (users : List User) :
    bootstrap ∅ (some users) = (oldestUser users).elim ∅ fun u => {u.name} := by
  cases h : oldestUser users <;> simp [bootstrap, hasAny, h]

end Store

namespace Stamped

/-- The bootstrap promotes someone if there is anyone to promote, and then an earliest user. -/
def PromotesOldest (ps : List Stamped) : Prop :=
  (∀ u, Store.oldestUser (ps.map user) = some u →
    Store.bootstrap ∅ (some (ps.map user)) = {u.name} ∧ ∃ p ∈ ps, p.user = u ∧ p.Earliest ps) ∧
  ((∃ p ∈ ps, p.Eligible) → (Store.oldestUser (ps.map user)).isSome)

/-- If anyone can be promoted, there is an earliest user whose spelling no other user continues. -/
def Uncontinued (ps : List Stamped) : Prop :=
  (∃ p ∈ ps, p.Eligible) →
    ∃ p ∈ ps, p.Earliest ps ∧ ∀ q ∈ ps, q.Eligible → ¬ p.created.Continues q.created

/-- The bootstrap promotes the oldest user exactly when an earliest one is continued by nobody. -/
theorem promotes_oldest_iff (ps : List Stamped) : PromotesOldest ps ↔ Uncontinued ps := by
  rcases Store.oldestUser_cases (ps.map user) with ⟨hnone, hall⟩ | ⟨v, hv, hsome, hne, hall⟩
  · have habsent : ¬ ∃ p ∈ ps, p.Eligible := by
      rintro ⟨p, hp, he⟩
      exact he (hall p.user (List.mem_map_of_mem hp))
    refine iff_of_true ⟨fun u hu => ?_, fun h => absurd h habsent⟩ fun h => absurd h habsent
    cases hnone.symm.trans hu
  · obtain ⟨p, hp, rfl⟩ := List.mem_map.mp hv
    have hmin : ∀ q ∈ ps, q.Eligible → ¬ q.created.text < p.created.text :=
      fun q hq => hall q.user (List.mem_map_of_mem hq)
    constructor
    · rintro ⟨hpromoted, -⟩ -
      obtain ⟨-, r, hr, heq, hearliest⟩ := hpromoted p.user hsome
      have htext : r.created.text = p.created.text := congrArg User.createdAt heq
      refine ⟨r, hr, hearliest, fun q hq he hc => hmin q hq he ?_⟩
      exact htext ▸ hc.text_lt
    · intro h
      obtain ⟨r, hr, hearliest, hfree⟩ := h ⟨p, hp, hne⟩
      have hle : p.created.instant ≤ r.created.instant :=
        (Timestamp.instant_le_or_continues (hmin r hr hearliest.1)).resolve_right (hfree p hp hne)
      refine ⟨fun u hu => ?_, fun _ => by rw [hsome]; rfl⟩
      cases hsome.symm.trans hu
      refine ⟨by rw [Store.bootstrap_empty, hsome]; rfl, p, hp, rfl, hne, fun q hq he => ?_⟩
      exact hle.trans (hearliest.2 q hq he)

/-- The fifth second of the year 2025, with a fraction. -/
def fifthSecond (fraction : List (Fin 10)) (h : fraction.length ∈ [0, 3, 6, 9]) : Timestamp where
  year := 2025
  month := 1
  day := 1
  hour := 0
  minute := 0
  second := 5
  fraction := fraction
  year_lt := by decide
  month_pos := by decide
  month_le := by decide
  day_pos := by decide
  day_le := by decide
  hour_lt := by decide
  minute_lt := by decide
  second_lt := by decide
  length_fraction := h

/-- Two users, one created at the beginning of a second and one a little later. -/
def sameSecond : List Stamped :=
  [⟨str "alice", fifthSecond [] (by decide)⟩, ⟨str "bob", fifthSecond [1, 2, 3] (by decide)⟩]

/-- The later one is promoted. -/
theorem bootstrap_promotes_younger :
    sameSecond.map Stamped.user =
      [⟨str "alice", str "2025-01-01T00:00:05Z"⟩, ⟨str "bob", str "2025-01-01T00:00:05.123Z"⟩] ∧
    Store.bootstrap ∅ (some (sameSecond.map Stamped.user)) = {str "bob"} ∧
    ¬ PromotesOldest sameSecond := by
  have htext : sameSecond.map Stamped.user =
      [⟨str "alice", str "2025-01-01T00:00:05Z"⟩, ⟨str "bob", str "2025-01-01T00:00:05.123Z"⟩] := by
    decide +kernel
  have hbob : Store.bootstrap ∅ (some (sameSecond.map Stamped.user)) = {str "bob"} := by
    rw [htext]
    decide +kernel
  have holdest : Store.oldestUser (sameSecond.map Stamped.user) =
      some ⟨str "bob", str "2025-01-01T00:00:05.123Z"⟩ := by
    rw [htext]
    decide +kernel
  refine ⟨htext, hbob, fun h => ?_⟩
  obtain ⟨-, p, hp, hu, -, hmin⟩ := h.1 _ holdest
  have halice := hmin _ List.mem_cons_self (by decide +kernel : str "alice" ≠ str "headfwd-server")
  simp only [sameSecond, List.mem_cons, List.not_mem_nil, or_false] at hp
  rcases hp with rfl | rfl
  · have hname : str "alice" = str "bob" := congrArg User.name hu
    exact absurd hname (by decide +kernel)
  · have hsame : (fifthSecond [1, 2, 3] (by decide)).seconds = (fifthSecond [] (by decide)).seconds :=
      Timestamp.seconds_eq_of_clock_eq (by decide +kernel)
    exact absurd (Timestamp.scaled_le_of_instant_le hsame halice) (by decide)

end Stamped

end HeadFwd.Portal
