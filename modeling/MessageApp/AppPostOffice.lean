import MessageApp.AppDelivery
import MessageApp.OrderedDelivery

/-! The whole app as a post office. Where the writes of each user are committed in the order they
were issued, a run of the app is one of the ordered network and that is one of the post office:
the chats and previews of all users are its boxes and notices, with any writes in flight. -/
namespace MessageApp

open PostOffice

section
variable {store chat : Store}

theorem Store.ChatPart.conversation (h : store.ChatPart chat) (x y : String) :
    conversation chat x y = conversation store x y := by
  rw [MessageApp.conversation,MessageApp.conversation,h.consulta]

theorem Store.ChatPart.preview (h : store.ChatPart chat) (x y : String) :
    preview chat x y = preview store x y := by
  rw [MessageApp.preview,MessageApp.preview,h.lookup rfl]

end

section
variable {canon : String → String} {es : List AppEvent} {r : Recorded}

theorem Recorded.orderedNetwork (run : (recordedApp canon).exec Recorded.start es = some r)
    (reliable : (recordedApp canon).Along Recorded.Reliable Recorded.start es)
    (inOrder : (recordedApp canon).Along Recorded.InOrder Recorded.start es) :
    ∃ users ns n, (orderedNetwork users).exec Network.start ns = some n ∧ r.Carries n := by
  obtain ⟨_,_,users,ns,n,_,hexec,hn⟩ := Recorded.carried true run reliable fun _ => inOrder
  exact ⟨users,ns,n,hexec,hn⟩

/-- A run of the whole app that draws fresh ids, has no write rejected and commits the writes of
each user in order is a run of the post office: the same letters are posted, and at its end all
conversations and previews in the store are the boxes and notices of the post office. -/
theorem app_refines_office (run : (recordedApp canon).exec Recorded.start es = some r)
    (reliable : (recordedApp canon).Along Recorded.Reliable Recorded.start es)
    (inOrder : (recordedApp canon).Along Recorded.InOrder Recorded.start es) :
    ∃ fs o, (office String String).exec Office.start fs = some o ∧
      o.letters = r.sends.filterMap Send.letter ∧
      (∀ x y, conversation r.app.store x y = (o.box x y).map fun m => (some m.1,some m.2)) ∧
      ∀ x y, preview r.app.store x y = o.notice x y := by
  obtain ⟨users,ns,n,hexec,hn⟩ := Recorded.orderedNetwork run reliable inOrder
  obtain ⟨fs,o,hfs,hletters,hbox,hnotice⟩ := network_refines_office hexec
  refine ⟨fs,o,hfs,hn.sends ▸ hletters,fun x y => ?_,fun x y => ?_⟩
  · rw [← hn.store.conversation,hbox]
  · rw [← hn.store.preview,hnotice]

/-- The first message of a chat, its fourth write still in flight. -/
def firstAnnounced : List AppEvent :=
  chatWithBia ++ [.client 0 (.actionPushMessage "oi" "m1" "m2") [],.commit 0 4,.commit 0 5,.commit 0 6]

theorem app_refines_office_bia :
    ∃ r fs o, (recordedApp id).exec Recorded.start firstAnnounced = some r ∧
      (office String String).exec Office.start fs = some o ∧ o.letters = [⟨"u1","u2","oi"⟩] ∧
      o.notice "u1" "u2" = some "oi" ∧ o.notice "u2" "u1" = none := by
  obtain ⟨fs,o,hfs,hletters,_,hnotice⟩ := @app_refines_office id firstAnnounced _ rfl
    (Machine.along_of_check (by decide +kernel)) (Machine.along_of_check (by decide +kernel))
  exact ⟨_,fs,o,rfl,hfs,hletters,(hnotice "u1" "u2").symm,(hnotice "u2" "u1").symm⟩

/-- At any moment of such a run, with any writes in flight, a preview only announces a message of
one of its two users that both of them already have in their chat. -/
theorem app_preview_delivered (run : (recordedApp canon).exec Recorded.start es = some r)
    (reliable : (recordedApp canon).Along Recorded.Reliable Recorded.start es)
    (inOrder : (recordedApp canon).Along Recorded.InOrder Recorded.start es) {x y texto : String}
    (hpreview : preview r.app.store x y = some texto) :
    ∃ autor, (autor = x ∨ autor = y) ∧
      (some autor,some texto) ∈ conversation r.app.store x y ∧
      (some autor,some texto) ∈ conversation r.app.store y x := by
  obtain ⟨users,ns,n,hexec,hn⟩ := Recorded.orderedNetwork run reliable inOrder
  rw [← hn.store.preview] at hpreview
  rw [← hn.store.conversation,← hn.store.conversation]
  exact preview_announces_delivered hexec hpreview

theorem app_preview_delivered_bia :
    ∃ r autor, (recordedApp id).exec Recorded.start firstAnnounced = some r ∧
      (some autor,some "oi") ∈ conversation r.app.store "u2" "u1" := by
  obtain ⟨autor,_,_,hpeer⟩ := @app_preview_delivered id firstAnnounced _ rfl
    (Machine.along_of_check (by decide +kernel)) (Machine.along_of_check (by decide +kernel))
    "u1" "u2" "oi" rfl
  exact ⟨_,autor,rfl,hpeer⟩

/-- At any moment of such a run, with any writes in flight, the messages of `x` in the chat of `x`
with `y` are the first ones that `x` sent to `y`, in that order and without a gap, and the chat of
`y` has the same ones, but perhaps the last. -/
theorem app_received_without_gaps (run : (recordedApp canon).exec Recorded.start es = some r)
    (reliable : (recordedApp canon).Along Recorded.Reliable Recorded.start es)
    (inOrder : (recordedApp canon).Along Recorded.InOrder Recorded.start es) {x y : String}
    (hxy : x ≠ y) :
    ∃ shown received : List String,
      shown <+: (r.sends.filter fun e => e.Between x y).map Send.texto ∧ received <+: shown ∧
      shown.length ≤ received.length + 1 ∧
      (conversation r.app.store x y).filter (fun m => m.1 = some x) =
        (shown.map fun texto => (some x,some texto)).reverse ∧
      (conversation r.app.store y x).filter (fun m => m.1 = some x) =
        (received.map fun texto => (some x,some texto)).reverse := by
  obtain ⟨users,ns,n,hexec,hn⟩ := Recorded.orderedNetwork run reliable inOrder
  rw [← hn.store.conversation,← hn.store.conversation,← hn.sends]
  exact received_without_gaps hexec hxy

theorem app_received_without_gaps_bia :
    ∃ r, (recordedApp id).exec Recorded.start firstAnnounced = some r ∧
      ∃ shown received : List String, shown <+: ["oi"] ∧ received <+: shown ∧
        (conversation r.app.store "u2" "u1").filter (fun m => m.1 = some "u1") =
          (received.map fun texto => (some "u1",some texto)).reverse := by
  obtain ⟨shown,received,hshown,hreceived,_,_,hpeer⟩ :=
    @app_received_without_gaps id firstAnnounced _ rfl
      (Machine.along_of_check (by decide +kernel)) (Machine.along_of_check (by decide +kernel))
      "u1" "u2" (by decide)
  exact ⟨_,rfl,shown,received,hshown,hreceived,hpeer⟩

end
end MessageApp
