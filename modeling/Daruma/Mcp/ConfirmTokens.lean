import Daruma.Library.KeyedTable
import Daruma.Library.Standing

/-! The two calls of the tool that deletes a project: the first gets a token, the second
spends it. Calls come in any order; the clock is read outside of the lock of the store, so
their instants need not grow. -/
namespace Daruma
namespace ConfirmTokens

open Standing (Stands)

/-- Five minutes, in nanoseconds. -/
def confirmTtl : Nat := 300 * 1000000000

structure ConfirmToken where
  token : String
  projectId : String
  issuedAt : Nat

abbrev ConfirmStore := KeyedTable String ConfirmToken ConfirmToken.token

/-- Expired tokens are swept on the way. -/
def issueConfirmToken (store : ConfirmStore) (token projectId : String) (now : Nat) : ConfirmStore :=
  (store.filter fun entry => now - entry.issuedAt < confirmTtl).insertOrReplace ⟨token, projectId, now⟩

/-- A token is gone after every attempt to use it. -/
def consumeConfirmToken (store : ConfirmStore) (token projectId : String) (now : Nat) :
    Except String Unit × ConfirmStore :=
  match store.find? token with
  | none => (.error "confirm_token_unknown_or_used", store)
  | some entry =>
    (if confirmTtl ≤ now - entry.issuedAt then .error "confirm_token_expired"
      else if entry.projectId ≠ projectId then .error "confirm_token_project_mismatch"
      else .ok (), store.erase token)

/-- The arguments of a call, what the server lists for the project, and the random token. -/
structure DeleteCall where
  id : String
  confirmToken : Option String
  confirm : Option String
  title : Option String
  tasksCount : Nat
  plansCount : Nat
  fresh : String
  now : Nat

inductive DeleteAnswer where
  | failed (reason : String)
  | confirmationRequired (token : String)
  /-- The request to delete the project goes out. -/
  | sent

def projectDelete (store : ConfirmStore) (call : DeleteCall) : DeleteAnswer × ConfirmStore :=
  match call.title, call.confirmToken, call.confirm with
  | none, _, _ => (.failed s!"project_not_found: {call.id}", store)
  | some _, none, none =>
    (.confirmationRequired call.fresh, issueConfirmToken store call.fresh call.id call.now)
  | some _, none, some _ => (.failed "`confirm_token` is required on the second call", store)
  | some _, some _, none => (.failed "`confirm` is required and must equal the project title", store)
  | some title, some token, some confirm =>
    if confirm ≠ title then
      (.failed s!"confirm_mismatch: expected exact title `{title}`, got `{confirm}`", store)
    else
      match consumeConfirmToken store token call.id call.now with
      | (.error reason, store') => (.failed reason, store')
      | (.ok (), store') =>
        if call.tasksCount > 0 ∨ call.plansCount > 0 then
          (.failed s!"project_not_empty: tasks={call.tasksCount}, plans={call.plansCount}", store')
        else (.sent, store')

def run (calls : List DeleteCall) : ConfirmStore := calls.foldl (fun store call => (projectDelete store call).2) .empty

namespace DeleteCall

def Issues (call : DeleteCall) (entry : ConfirmToken) : Prop :=
  call.title.isSome ∧ call.confirmToken = none ∧ call.confirm = none ∧ entry = ⟨call.fresh, call.id, call.now⟩

/-- The second call for a project, with its exact title. -/
def Presents (call : DeleteCall) (token : String) : Prop :=
  call.title.isSome ∧ call.confirmToken = some token ∧ call.confirm = call.title

/-- The call spends another token, if any, and issues another while this one is not expired. -/
def Keeps (call : DeleteCall) (entry : ConfirmToken) : Prop :=
  ¬call.Presents entry.token ∧
    ∀ issued, call.Issues issued → issued.issuedAt - entry.issuedAt < confirmTtl ∧ entry.token ≠ issued.token

end DeleteCall

theorem mem_issueConfirmToken {entry : ConfirmToken} {store : ConfirmStore} {token projectId : String} {now : Nat} :
    entry ∈ issueConfirmToken store token projectId now ↔ entry = ⟨token, projectId, now⟩ ∨
      entry ∈ store ∧ now - entry.issuedAt < confirmTtl ∧ entry.token ≠ token := by
  simp [issueConfirmToken, and_assoc]

theorem consumeConfirmToken_store {store : ConfirmStore} {token projectId : String} {now : Nat} :
    (consumeConfirmToken store token projectId now).2 = store.erase token := by
  unfold consumeConfirmToken
  split
  · rename_i hNone
    exact (KeyedTable.filter_eq_self fun entry hEntry => by
      simpa using KeyedTable.find?_eq_none_iff.mp hNone entry hEntry).symm
  · rfl

theorem consumeConfirmToken_ok {store : ConfirmStore} {token projectId : String} {now : Nat} :
    (consumeConfirmToken store token projectId now).1 = .ok () ↔
      ∃ entry ∈ store, entry.token = token ∧ entry.projectId = projectId ∧ now - entry.issuedAt < confirmTtl := by
  unfold consumeConfirmToken
  split
  · rename_i hNone
    constructor
    · rintro ⟨⟩
    · rintro ⟨entry, hEntry, hToken, _⟩
      exact absurd hToken (KeyedTable.find?_eq_none_iff.mp hNone entry hEntry)
  · rename_i entry hFound
    obtain ⟨hEntry, hToken⟩ := KeyedTable.find?_eq_some_iff.mp hFound
    constructor
    · intro hOk
      refine ⟨entry, hEntry, hToken, ?_⟩
      split_ifs at hOk with hOld hOther
      exact ⟨not_not.mp hOther, Nat.not_le.mp hOld⟩
    · rintro ⟨other, hOther, hIs, hProject, hFresh⟩
      obtain rfl := KeyedTable.eq_of_key_eq hOther hEntry (hIs.trans hToken.symm)
      simp [hProject, Nat.not_le.mpr hFresh]

theorem mem_projectDelete {entry : ConfirmToken} (store : ConfirmStore) (call : DeleteCall) :
    entry ∈ (projectDelete store call).2 ↔ call.Issues entry ∨ entry ∈ store ∧ call.Keeps entry := by
  obtain ⟨id, confirmToken, confirm, title, tasksCount, plansCount, fresh, now⟩ := call
  simp only [projectDelete, DeleteCall.Keeps, DeleteCall.Presents, DeleteCall.Issues]
  split
  · simp_all
  · simp_all [mem_issueConfirmToken]
  · simp_all
  · simp_all
  · rename_i title token confirm
    have hStore := @consumeConfirmToken_store store token id now
    split
    · simp_all
    · split
      · rename_i hConsumed
        rw [hConsumed] at hStore
        simp_all
        grind
      · rename_i hConsumed
        rw [hConsumed] at hStore
        split <;> simp_all <;> grind

theorem mem_run {entry : ConfirmToken} (history : List DeleteCall) :
    entry ∈ run history ↔ Stands DeleteCall.Issues DeleteCall.Keeps history entry :=
  @Standing.holds_iff _ _ _ _ _ entry _ (fun store => entry ∈ store) _ (KeyedTable.not_mem_empty entry)
    mem_projectDelete history

/-- A project is deleted exactly when a token was issued for it less than five minutes ago,
stands in the store, and comes with the exact title of the project, which is empty. -/
theorem sent_iff (history : List DeleteCall) (call : DeleteCall) :
    (projectDelete (run history) call).1 = .sent ↔ call.tasksCount = 0 ∧ call.plansCount = 0 ∧
      ∃ entry, Stands DeleteCall.Issues DeleteCall.Keeps history entry ∧ call.Presents entry.token ∧
        entry.projectId = call.id ∧ call.now - entry.issuedAt < confirmTtl := by
  simp only [← mem_run]
  generalize run history = store
  obtain ⟨id, confirmToken, confirm, title, tasksCount, plansCount, fresh, now⟩ := call
  simp only [projectDelete, DeleteCall.Presents]
  split
  · simp_all
  · simp_all
  · simp_all
  · simp_all
  · rename_i title token confirm
    have hOk := @consumeConfirmToken_ok store token id now
    split
    · simp_all
    · split
      · rename_i hConsumed
        rw [hConsumed] at hOk
        simp_all
      · rename_i hConsumed
        rw [hConsumed] at hOk
        split
        · rename_i hFilled
          simp_all only [reduceCtorEq, false_iff, not_and]
          omega
        · obtain ⟨entry, hEntry, hToken, hRest⟩ := hOk.mp rfl
          exact iff_of_true rfl ⟨by omega, by omega, entry, hEntry, by simp_all, hRest⟩

end ConfirmTokens
end Daruma
