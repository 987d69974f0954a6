import Lookahead.Trace.Event

/-!
# Values with a trace

`Traced α` is a value together with the events reported on the way to it,
oldest first. An `Attempt` may fail, and keeps the events that came before.
-/

namespace Lookahead

structure Traced (α : Type) where
  value : α
  events : List Event
  deriving DecidableEq, Repr

namespace Traced

instance : Monad Traced where
  pure a := ⟨a, []⟩
  bind m f := ⟨(f m.value).value, m.events ++ (f m.value).events⟩

instance : LawfulMonad Traced :=
  LawfulMonad.mk' Traced (fun m => by simp [Functor.map]) (fun a f => by simp [bind, pure])
    (fun m f g => by simp [bind])

def emit (e : Event) : Traced Unit := ⟨(), [e]⟩

@[simp] theorem value_pure (a : α) : (pure a : Traced α).value = a := rfl

@[simp] theorem events_pure (a : α) : (pure a : Traced α).events = [] := rfl

@[simp] theorem value_bind (m : Traced α) (f : α → Traced β) :
    (m >>= f).value = (f m.value).value := rfl

@[simp] theorem events_bind (m : Traced α) (f : α → Traced β) :
    (m >>= f).events = m.events ++ (f m.value).events := rfl

@[simp] theorem value_map (f : α → β) (m : Traced α) : (f <$> m).value = f m.value := rfl

@[simp] theorem events_map (f : α → β) (m : Traced α) : (f <$> m).events = m.events :=
  List.append_nil _

@[simp] theorem value_emit (e : Event) : (emit e).value = () := rfl

@[simp] theorem events_emit (e : Event) : (emit e).events = [e] := rfl

end Traced

abbrev Attempt (ε : Type) := ExceptT ε Traced

end Lookahead
