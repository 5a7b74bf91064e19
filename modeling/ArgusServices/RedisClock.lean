import ArgusServices.ExpiringKeys
import ArgusServices.Store

namespace ArgusServices

/-- The keys as a call finds them at an instant, without the time they have left. -/
def liveKeys (keys : ExpiringKeys String String) (now : Int) : String → Option RedisEntry :=
  fun key => (keys.get now key).map fun value => ⟨value, none⟩

/-- The keys after a call: one it has set expires `ex` seconds after. -/
def afterCall (keys : ExpiringKeys String String) (left : String → Option RedisEntry)
    (setAt : Int) : ExpiringKeys String String where
  entry := fun key =>
    match left key with
    | none => none
    | some ⟨_, none⟩ => keys.entry key
    | some ⟨value, some ex⟩ => some (value, setAt + seconds ex)

/-- A key after a call is one that was there before, or the one the call has set. -/
theorem afterCall_entry {keys : ExpiringKeys String String} {left : String → Option RedisEntry}
    {setAt expiresAt : Int} {key value : String}
    (h : (afterCall keys left setAt).entry key = some (value, expiresAt)) :
    keys.entry key = some (value, expiresAt) ∨
      ∃ ex, left key = some ⟨value, some ex⟩ ∧ expiresAt = setAt + seconds ex := by
  simp only [afterCall] at h
  split at h
  next => cases h
  next => exact Or.inl h
  next v ex hleft =>
    simp only [Option.some.injEq, Prod.mk.injEq] at h
    obtain ⟨rfl, rfl⟩ := h
    exact Or.inr ⟨ex, hleft, rfl⟩

/-- A key that a call leaves as it is stays until the same instant. -/
theorem get_afterCall {keys : ExpiringKeys String String} {left : String → Option RedisEntry}
    {now later : Int} {key : String} (h : left key = liveKeys keys now key) (hle : now ≤ later) :
    (afterCall keys left now).get later key = keys.get later key := by
  cases hget : keys.get now key with
  | none =>
    have hleft : left key = none := by simp [h, liveKeys, hget]
    have hgone : keys.get later key = none := by
      by_contra hlater
      obtain ⟨value, hvalue⟩ := Option.ne_none_iff_exists'.mp hlater
      obtain ⟨expiresAt, hentry, hlt⟩ := ExpiringKeys.get_eq_some.mp hvalue
      have hnow : keys.get now key = some value :=
        ExpiringKeys.get_eq_some.mpr ⟨expiresAt, hentry, by omega⟩
      rw [hget] at hnow
      cases hnow
    rw [hgone]
    simp [ExpiringKeys.get, afterCall, hleft]
  | some value =>
    have hleft : left key = some ⟨value, none⟩ := by simp [h, liveKeys, hget]
    simp [ExpiringKeys.get, afterCall, hleft]

end ArgusServices
