import LightestFirst.Network.Session
-- Something that holds of a network and of everything at hand in it, whatever is called, looked at or
-- added: what the calls on one stream keep, the steps of a conversation keep for all of them.
namespace LightestFirst
variable {α β : Type}

theorem Session.onHandle_eq {τ : Type} {kind : Handle.Kind α τ} {network after : Network α} {handle : String}
    {state later : τ} {form : β → Reply α} {call : τ → Network α → Attempt β × τ × Network α} {result : Attempt β}
    (found : network.handles.get? handle = some (kind.put state))
    (called : call state { network with handles := network.handles.erase handle } = (result, later, after)) :
    onHandle kind handle form call network =
      (reply form result, { after with handles := after.handles.put handle (kind.put later) }) := by
  simp only [onHandle, found, kind.of?_put, called]

namespace Network

structure AllFit (sound : Network α → Prop) (fits : Handle α → Network α → Prop) (network : Network α) : Prop where
  sound : sound network
  handles : ∀ {name held}, network.handles.get? name = some held → fits held network

structure IgnoresHandles (sound : Network α → Prop) (fits : Handle α → Network α → Prop) : Prop where
  sound : ∀ {network : Network α} (handles : Table (Handle α)), sound network → sound { network with handles }
  fits : ∀ {held : Handle α} {network : Network α} (handles : Table (Handle α)),
    fits held network → fits held { network with handles }

def Keeps {σ : Type} (sound : Network α → Prop) (fits : Handle α → Network α → Prop) (put : σ → Handle α)
    (call : σ → Network α → Attempt β × σ × Network α) : Prop :=
  ∀ ⦃state network⦄, AllFit sound fits network → fits (put state) network →
    AllFit sound fits (call state network).2.2 ∧ fits (put (call state network).2.1) (call state network).2.2

variable {sound : Network α → Prop} {fits : Handle α → Network α → Prop} {network : Network α} {handle : String}
variable (ignoring : IgnoresHandles sound fits) (allFit : AllFit sound fits network)
include ignoring allFit

theorem AllFit.erase (name : String) : AllFit sound fits { network with handles := network.handles.erase name } :=
  ⟨ignoring.sound _ allFit.sound, fun found => ignoring.fits _ (allFit.handles (Table.get?_of_erase found))⟩

theorem AllFit.put {held : Handle α} (here : fits held network) (name : String) :
    AllFit sound fits { network with handles := network.handles.put name held } := by
  refine ⟨ignoring.sound _ allFit.sound, fun found => ignoring.fits _ ?_⟩
  rcases Table.get?_of_put found with rfl | before
  · exact here
  · exact allFit.handles before

theorem AllFit.onHandle {τ : Type} {kind : Handle.Kind α τ} {form : β → Reply α}
    {call : τ → Network α → Attempt β × τ × Network α} (keeps : Keeps sound fits kind.put call) :
    AllFit sound fits (Session.onHandle kind handle form call network).2 := by
  rw [Session.onHandle]
  split
  · exact allFit
  · next held found =>
    split
    · exact allFit
    · next state fitting =>
      obtain rfl := kind.eq_put fitting
      have called := keeps (allFit.erase ignoring handle) (ignoring.fits _ (allFit.handles found))
      generalize call state { network with handles := network.handles.erase handle } = outcome at called
      exact called.1.put ignoring called.2 handle

theorem AllFit.derive {fresh : String} {make : Stream α → Option (Stream α)}
    (makes : ∀ {stream made}, fits (.stream stream) network → make stream = some made → fits (.stream made) network) :
    AllFit sound fits (Session.derive handle fresh make network).2 := by
  rw [Session.derive]
  split
  · exact allFit
  · exact allFit
  · next stream found =>
    split
    · exact allFit
    · next made => exact allFit.put ignoring (makes (allFit.handles found) made) fresh

theorem AllFit.rehandle {change : Handle α → Handle α} (changes : ∀ {held}, fits held network → fits (change held) network) :
    AllFit sound fits (Session.rehandle handle change network).2 := by
  rw [Session.rehandle]
  split
  · exact allFit
  · next held found => exact allFit.put ignoring (changes (allFit.handles found)) handle

omit ignoring in
theorem AllFit.observe {form : β → Reply α} {look : Stream α → Network α → Option β} :
    AllFit sound fits (Session.observe handle form look network).2 := by
  rw [Session.observe_network]
  exact allFit

end Network
end LightestFirst
