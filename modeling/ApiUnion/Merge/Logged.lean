import ApiUnion.Merge.Conflict

-- Values that come with a log of how the merges behind them went.

namespace ApiUnion

structure Logged (α : Type) where
  value : α
  events : List Event

namespace Logged

variable {α β : Type}

instance : Monad Logged where
  pure value := ⟨value, []⟩
  bind logged next :=
    let result := next logged.value
    ⟨result.value, logged.events ++ result.events⟩

@[simp] theorem value_pure (a : α) : (pure a : Logged α).value = a := rfl

@[simp] theorem events_pure (a : α) : (pure a : Logged α).events = [] := rfl

@[simp] theorem value_bind (x : Logged α) (f : α → Logged β) :
    (x >>= f).value = (f x.value).value := rfl

@[simp] theorem events_bind (x : Logged α) (f : α → Logged β) :
    (x >>= f).events = x.events ++ (f x.value).events := rfl

def record (event : Event) : Logged Unit :=
  ⟨(), [event]⟩

-- What an attempt on a value comes to: the new value, or the old one if there is a conflict.
def attempt (scope : Scope) (subject : String) (old : α) (result : Except Conflict α) : Logged α :=
  ⟨result.toOption.getD old, [.ofResult scope subject result]⟩

end Logged

end ApiUnion
