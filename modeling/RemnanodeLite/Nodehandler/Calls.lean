import RemnanodeLite.Nodehandler.Handler

/-! # What one call of a request does -/

namespace RemnanodeLite.Nodehandler
open Xray

def Node.log (n : Node) (rpc : Rpc) : Node := { n with rpcs := rpc :: n.rpcs }

theorem setUser_self (n : Node) (tag username : String) (value : Option String) :
    (n.setUser tag username value).core tag username = value := by
  simp [Node.setUser]

theorem setUser_other (n : Node) {tag username t u : String} (value : Option String)
    (h : t ≠ tag ∨ u ≠ username) : (n.setUser tag username value).core t u = n.core t u := by
  rcases h with h | h
  · simp [Node.setUser, Function.update_of_ne h]
  · by_cases ht : t = tag
    · subst ht
      simp [Node.setUser, Function.update_of_ne h]
    · simp [Node.setUser, Function.update_of_ne ht]

/- What one handler call leaves behind, with whether it reported success. -/
inductive CallView (n : Node) (a : Answer) (kind : RpcKind) (tag username : String)
    (value : Option String) (u : UserCommit) : Node → Bool → Prop
  | undialed : CallView n a kind tag username value u n false
  | failed : a.ok = false → a.effect = false →
      CallView n a kind tag username value u (n.log ⟨kind, tag, username, false⟩) false
  | ambiguous : a.ok = false → a.effect = true →
      CallView n a kind tag username value u
        ((n.log ⟨kind, tag, username, false⟩).setUser tag username value) false
  | refused : u.wellFormed = false →
      CallView n a kind tag username value u
        ((n.log ⟨kind, tag, username, true⟩).setUser tag username value) false
  | done : u.wellFormed = true →
      CallView n a kind tag username value u
        { (n.log ⟨kind, tag, username, true⟩).setUser tag username value with
          hashState := u.apply n.hashState } true

theorem handlerCall_view (env : Env) (s : Session) (kind : RpcKind) (tag username : String)
    (value : Option String) (u : UserCommit) :
    ∃ n' r, CallView s.node (env.answer s.clock) kind tag username value u n' r.ok ∧
      handlerCall env s kind tag username value u =
        { s with node := n', clock := s.clock + 1 }.addResult r := by
  unfold handlerCall
  cases hd : (env.answer s.clock).dialed with
  | false => exact ⟨s.node, ⟨false, (env.answer s.clock).message⟩, .undialed, by simp [hd]⟩
  | true =>
    cases hok : (env.answer s.clock).ok with
    | false =>
      let r : HandlerResult := ⟨false, (env.answer s.clock).message⟩
      cases he : (env.answer s.clock).effect with
      | false => exact ⟨_, r, .failed hok he, by simp [r, hd, hok, he, commitResult, Node.log]⟩
      | true => exact ⟨_, r, .ambiguous hok he, by simp [r, hd, hok, he, commitResult, Node.log]⟩
    | true =>
      cases hu : u.wellFormed with
      | false =>
        exact ⟨_, commitRefused, .refused hu, by simp [hd, hok, hu, commitResult, Node.log]⟩
      | true =>
        exact ⟨_, ⟨true, ""⟩, .done hu,
          by simp [hd, hok, hu, commitResult, Node.log, Node.setUser]⟩

theorem prepareUserIPDrop_node (env : Env) (s : Session) :
    (prepareUserIPDrop env s).1.node = s.node ∧
      (prepareUserIPDrop env s).1.results = s.results := by
  unfold prepareUserIPDrop
  split
  · exact ⟨rfl, rfl⟩
  · dsimp only
    split <;> exact ⟨rfl, rfl⟩

theorem applyUserIPDrops_node (env : Env) (s : Session) (plans : List (List String)) :
    (applyUserIPDrops env s plans).1.node = s.node ∧
      (applyUserIPDrops env s plans).1.results = s.results := by
  unfold applyUserIPDrops
  split <;> exact ⟨rfl, rfl⟩

@[simp] theorem addResult_node (s : Session) (r : HandlerResult) : (s.addResult r).node = s.node :=
  rfl

@[simp] theorem addResult_failed (s : Session) (r : HandlerResult) :
    (s.addResult r).results.failed = (s.results.failed || !r.ok) :=
  s.results.failed_add r

theorem unlessStopped_cases (env : Env) (s : Session) (k : Session → Pass Session) :
    (∃ r : HandlerResult, r.ok = false ∧ unlessStopped env s k = .stop (s.addResult r)) ∨
      unlessStopped env s k = k s := by
  unfold unlessStopped
  cases env.ctxErr s.clock with
  | some err => exact Or.inl ⟨⟨false, err.text⟩, rfl, rfl⟩
  | none => exact Or.inr rfl

end RemnanodeLite.Nodehandler
