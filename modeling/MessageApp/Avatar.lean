import MessageApp.Documents
import MessageApp.Runs

/-! The image views that show a user's photo. A binding either assigns an image or starts a
download; a download cancels the one before it and assigning an image cancels nothing. -/
namespace MessageApp

/-- A `UIImageView` with the URL of the download it waits for, if any. -/
structure UIImageView (Img Url : Type) where
  image : Option Img
  live : Option Url
  deriving DecidableEq

variable {Img Url : Type}

namespace UIImageView

def empty : UIImageView Img Url := ⟨none,none⟩

def setImage (v : UIImageView Img Url) (image : Option Img) : UIImageView Img Url :=
  { v with image := image }

/-- `sd_setImage(with:)` cancels the download before it, clears the image and downloads the
URL unless it is nil. -/
def sd_setImage (_ : UIImageView Img Url) (url : Option Url) : UIImageView Img Url := ⟨none,url⟩

/-- The download ends. Without an image it leaves the view as it is. -/
def completed (v : UIImageView Img Url) (result : Option Img) : UIImageView Img Url :=
  ⟨result.or v.image,none⟩

end UIImageView

/-- The images in the app's bundle and `URL(string:)`, which rejects malformed strings. -/
structure Bundle (Img Url : Type) where
  named : String → Option Img
  url : String → Option Url

inductive Route (Img Url : Type)
  | assign (image : Option Img)
  | download (url : Option Url)

def UIImageView.perform (v : UIImageView Img Url) : Route Img Url → UIImageView Img Url
  | .assign image => v.setImage image
  | .download url => v.sd_setImage url

/-- The test that three of the views make: the placeholder without a photo, the download
of the photo otherwise. -/
def Bundle.foto (app : Bundle Img Url) (url : Option String) : Route Img Url :=
  if url = none ∨ url = some "" then .assign (app.named "imagem-perfil")
  else .download (app.url (url.getD ""))

structure CustomImageView (Img Url : Type) where
  imageView : UIImageView Img Url
  indicatorHidden : Bool
  deriving DecidableEq

def CustomImageView.setupCustomImageView (app : Bundle Img Url) (v : CustomImageView Img Url)
    (messageList : Option String) : CustomImageView Img Url where
  imageView := v.imageView.perform (app.foto messageList)
  indicatorHidden := true

structure MessageListCollectionViewCell (Img Url : Type) where
  data : Option Conversa
  customImageView : CustomImageView Img Url
  userName : String
  deriving DecidableEq

namespace MessageListCollectionViewCell

def setupView (app : Bundle Img Url) (c : MessageListCollectionViewCell Img Url) (contact : Contact) :
    MessageListCollectionViewCell Img Url :=
  { c with
    userName := contact.nome.getD ""
    customImageView := c.customImageView.setupCustomImageView app contact.urlImage }

/-- Runs whenever `data` is set, through its `didSet`. -/
def manageData (app : Bundle Img Url) (c : MessageListCollectionViewCell Img Url) :
    MessageListCollectionViewCell Img Url :=
  match c.data with
  | none => c
  | some data =>
    { c with
      customImageView := c.customImageView.setupCustomImageView app data.urlFotoUsuario
      userName := data.nome.getD "" ++ ("\n" ++ data.ultimaMensagem.getD "") }

def setData (app : Bundle Img Url) (c : MessageListCollectionViewCell Img Url)
    (data : Option Conversa) : MessageListCollectionViewCell Img Url :=
  manageData app { c with data := data }

end MessageListCollectionViewCell

structure ChatNavigationView (Img Url : Type) where
  customImage : CustomImageView Img Url
  deriving DecidableEq

/-- Sets the inner image view itself, not through `setupCustomImageView`. -/
def ChatNavigationView.addImageNavigationView (app : Bundle Img Url) (v : ChatNavigationView Img Url)
    (value : Option String) : ChatNavigationView Img Url where
  customImage :=
    { v.customImage with imageView := v.customImage.imageView.perform (app.foto value) }

structure DetailUserScreen (Img Url : Type) where
  imageUser : UIImageView Img Url
  nameLabel : String
  emailLabel : String
  deriving DecidableEq

namespace DetailUserScreen

def configDetailScreen (app : Bundle Img Url) (s : DetailUserScreen Img Url) (user : User) :
    DetailUserScreen Img Url where
  nameLabel := user.nome.getD ""
  emailLabel := user.email.getD ""
  imageUser := s.imageUser.perform (app.foto user.urlFotoUsuario)

def addImageUser (app : Bundle Img Url) (s : DetailUserScreen Img Url) (image : Option Img) :
    DetailUserScreen Img Url :=
  { s with imageUser := s.imageUser.perform (.assign (image.or (app.named "imagem-perfil"))) }

end DetailUserScreen

inductive AvatarView (Img Url : Type)
  | custom (v : CustomImageView Img Url)
  | cell (c : MessageListCollectionViewCell Img Url)
  | navigation (v : ChatNavigationView Img Url)
  | detail (s : DetailUserScreen Img Url)
  deriving DecidableEq

inductive AvatarCall (Img : Type)
  | setupCustomImageView (messageList : Option String)
  | setupView (contact : Contact)
  | setData (data : Option Conversa)
  | addImageNavigationView (value : Option String)
  | configDetailScreen (user : User)
  | addImageUser (image : Option Img)

namespace AvatarView

def imageView : AvatarView Img Url → UIImageView Img Url
  | .custom v => v.imageView
  | .cell c => c.customImageView.imageView
  | .navigation v => v.customImage.imageView
  | .detail s => s.imageUser

def setImageView (imageView : UIImageView Img Url) : AvatarView Img Url → AvatarView Img Url
  | .custom v => .custom { v with imageView := imageView }
  | .cell c => .cell { c with customImageView := { c.customImageView with imageView := imageView } }
  | .navigation v =>
    .navigation { v with customImage := { v.customImage with imageView := imageView } }
  | .detail s => .detail { s with imageUser := imageView }

@[simp] theorem imageView_setImageView (i : UIImageView Img Url) (v : AvatarView Img Url) :
    (v.setImageView i).imageView = i := by
  cases v <;> rfl

/-- `none` for a call the class of the view does not have. -/
def call (app : Bundle Img Url) : AvatarView Img Url → AvatarCall Img → Option (AvatarView Img Url)
  | .custom v, .setupCustomImageView messageList =>
    some (.custom (v.setupCustomImageView app messageList))
  | .cell c, .setupView contact => some (.cell (c.setupView app contact))
  | .cell c, .setData data => some (.cell (c.setData app data))
  | .navigation v, .addImageNavigationView value =>
    some (.navigation (v.addImageNavigationView app value))
  | .detail s, .configDetailScreen user => some (.detail (s.configDetailScreen app user))
  | .detail s, .addImageUser image => some (.detail (s.addImageUser app image))
  | _, _ => none

end AvatarView

/-- What a call asks of the image view; `data = nil` asks nothing. -/
def AvatarCall.route (app : Bundle Img Url) : AvatarCall Img → Option (Route Img Url)
  | .setupCustomImageView messageList => some (app.foto messageList)
  | .setupView contact => some (app.foto contact.urlImage)
  | .setData data => data.map fun data => app.foto data.urlFotoUsuario
  | .addImageNavigationView value => some (app.foto value)
  | .configDetailScreen user => some (app.foto user.urlFotoUsuario)
  | .addImageUser image => some (.assign (image.or (app.named "imagem-perfil")))

theorem AvatarView.imageView_call {app : Bundle Img Url} {v w : AvatarView Img Url}
    {c : AvatarCall Img} (h : v.call app c = some w) :
    w.imageView = ((c.route app).elim v.imageView v.imageView.perform) := by
  cases c with
  | setData data =>
    cases v <;> simp [call] at h
    subst h
    cases data <;> rfl
  | _ =>
    cases v <;> simp [call] at h
    subst h
    rfl

/-- The binding last made: the image it assigned, or the URL it downloads, or how that
download ended. A string that is no URL downloads nothing. -/
inductive Binding (Img Url : Type)
  | assigned (image : Option Img)
  | loading (url : Url)
  | loaded (result : Option Img)
  deriving DecidableEq

namespace Binding

/-- What a user's photo asks for: the download of its URL if there is one, else the placeholder.
It is the statement of the purpose and is not taken from the code of the views. -/
def ofPhoto (app : Bundle Img Url) (photo : Option String) : Binding Img Url :=
  (photo.filter fun photo => photo ≠ "").elim (.assigned (app.named "imagem-perfil"))
    fun photo => (app.url photo).elim (.loaded none) .loading

def ofRoute : Route Img Url → Binding Img Url
  | .assign image => .assigned image
  | .download none => .loaded none
  | .download (some url) => .loading url

def image : Binding Img Url → Option Img
  | .assigned image => image
  | .loading _ => none
  | .loaded result => result

def completed (b : Binding Img Url) (result : Option Img) : Binding Img Url :=
  match b with
  | .loading _ => .loaded result
  | b => b

end Binding

/-- The binding a call asks for, by its own argument; `data = nil` leaves the last one. -/
def AvatarCall.binding (app : Bundle Img Url) (last : Binding Img Url) : AvatarCall Img → Binding Img Url
  | .setupCustomImageView messageList => .ofPhoto app messageList
  | .setupView contact => .ofPhoto app contact.urlImage
  | .setData none => last
  | .setData (some data) => .ofPhoto app data.urlFotoUsuario
  | .addImageNavigationView value => .ofPhoto app value
  | .configDetailScreen user => .ofPhoto app user.urlFotoUsuario
  | .addImageUser image => .assigned (image.or (app.named "imagem-perfil"))

/-- The test of the views takes the route that the photo asks for. -/
theorem Bundle.ofRoute_foto (app : Bundle Img Url) (url : Option String) :
    Binding.ofRoute (app.foto url) = .ofPhoto app url := by
  cases url with
  | none => rfl
  | some url =>
    by_cases hurl : url = ""
    · simp [Bundle.foto,Binding.ofPhoto,Binding.ofRoute,Option.filter,hurl]
    · cases hparse : app.url url <;>
        simp [Bundle.foto,Binding.ofPhoto,Binding.ofRoute,Option.filter,hurl,hparse]

theorem AvatarCall.route_binding (app : Bundle Img Url) (last : Binding Img Url) (c : AvatarCall Img) :
    (c.route app).elim last Binding.ofRoute = c.binding app last := by
  cases c with
  | setData data =>
    cases data with
    | none => rfl
    | some data => exact app.ofRoute_foto data.urlFotoUsuario
  | addImageUser image => rfl
  | _ => exact app.ofRoute_foto _

/-- A view with its last binding, which the app does not keep. -/
structure Avatar (Img Url : Type) where
  view : AvatarView Img Url
  last : Binding Img Url
  deriving DecidableEq

inductive AvatarEvent (Img : Type)
  | call (c : AvatarCall Img)
  | completed (result : Option Img)

namespace Avatar

def step (app : Bundle Img Url) (s : Avatar Img Url) : AvatarEvent Img → Option (Avatar Img Url)
  | .call c => (s.view.call app c).map fun view => ⟨view,c.binding app s.last⟩
  | .completed result =>
    if s.view.imageView.live.isSome then
      some ⟨s.view.setImageView (s.view.imageView.completed result),s.last.completed result⟩
    else none

/-- With no download pending, the image shown is the one of the last binding. -/
def ShowsLast (s : Avatar Img Url) : Prop :=
  s.view.imageView.live = none → s.view.imageView.image = s.last.image

/-- A download that brings an image was started by the last binding, or brings the very image
that the last binding set. -/
def OfLast (s : Avatar Img Url) : AvatarEvent Img → Prop
  | .completed (some image) => (∃ url, s.last = .loading url) ∨ s.last.image = some image
  | _ => True

/-- While a download is pending the view shows the last binding's image, and the download of
the last binding is the one that is pending. -/
structure Tracks (s : Avatar Img Url) : Prop where
  shown : s.view.imageView.live ≠ none → s.view.imageView.image = s.last.image
  pending : ∀ url, s.last = .loading url → s.view.imageView.live = some url

end Avatar

def avatar (app : Bundle Img Url) (view : AvatarView Img Url) : Machine (Avatar Img Url) (AvatarEvent Img) :=
  ⟨⟨view,.assigned none⟩,Avatar.step app⟩

namespace Avatar

variable {app : Bundle Img Url} {s t : Avatar Img Url}

theorem perform_ofRoute (v : UIImageView Img Url) (r : Route Img Url) :
    (v.perform r).image = (Binding.ofRoute r).image ∧
      ∀ url, Binding.ofRoute r = .loading url → (v.perform r).live = some url := by
  cases r with
  | assign image => exact ⟨rfl,fun url h => by simp [Binding.ofRoute] at h⟩
  | download url =>
    cases url with
    | none => exact ⟨rfl,fun url h => by simp [Binding.ofRoute] at h⟩
    | some url =>
      refine ⟨rfl,fun url' h => ?_⟩
      have he : url = url' := by simpa [Binding.ofRoute] using h
      rw [← he]
      rfl

theorem step_call {c : AvatarCall Img} (h : s.step app (.call c) = some t) :
    (t.view.imageView = s.view.imageView ∧ t.last = s.last) ∨
      ∃ r, t.view.imageView = s.view.imageView.perform r ∧ t.last = Binding.ofRoute r := by
  obtain ⟨view,hview,rfl⟩ := Option.map_eq_some_iff.mp h
  have himage := AvatarView.imageView_call hview
  rw [← c.route_binding app s.last]
  cases hroute : c.route app with
  | none =>
    rw [hroute,Option.elim_none] at himage
    exact .inl ⟨himage,rfl⟩
  | some r =>
    rw [hroute,Option.elim_some] at himage
    exact .inr ⟨r,himage,rfl⟩

theorem step_completed {result : Option Img} (h : s.step app (.completed result) = some t) :
    s.view.imageView.live ≠ none ∧ t.view.imageView = s.view.imageView.completed result ∧
      t.last = s.last.completed result := by
  obtain ⟨hlive,rfl⟩ := guarded h
  refine ⟨fun hnone => ?_,AvatarView.imageView_setImageView _ _,rfl⟩
  simp [hnone] at hlive

theorem Tracks.step {e : AvatarEvent Img} (h : s.Tracks) (hstep : s.step app e = some t) :
    t.Tracks := by
  cases e with
  | call c =>
    rcases step_call hstep with ⟨hview,hlast⟩ | ⟨r,hview,hlast⟩
    · refine ⟨?_,?_⟩
      · rw [hview,hlast]
        exact h.shown
      · rw [hview,hlast]
        exact h.pending
    · obtain ⟨himage,hlive⟩ := perform_ofRoute s.view.imageView r
      refine ⟨fun _ => ?_,?_⟩
      · rw [hview,hlast]
        exact himage
      · rw [hview,hlast]
        exact hlive
  | completed result =>
    obtain ⟨_,hview,hlast⟩ := step_completed hstep
    refine ⟨fun hlive => absurd (by rw [hview]; rfl) hlive,fun url hloading => ?_⟩
    rw [hlast] at hloading
    cases hbefore : s.last <;> simp [hbefore,Binding.completed] at hloading

theorem showsLast_step {e : AvatarEvent Img} (h : s.Tracks) (hs : s.ShowsLast)
    (hstep : s.step app e = some t) : t.ShowsLast ↔ s.OfLast e := by
  have hshown : s.view.imageView.image = s.last.image := by
    by_cases hlive : s.view.imageView.live = none
    · exact hs hlive
    · exact h.shown hlive
  cases e with
  | call c =>
    refine iff_of_true (fun _ => ?_) trivial
    rcases step_call hstep with ⟨hview,hlast⟩ | ⟨r,hview,hlast⟩
    · rw [hview,hlast]
      exact hshown
    · rw [hview,hlast]
      exact (perform_ofRoute s.view.imageView r).1
  | completed result =>
    obtain ⟨_,hview,hlast⟩ := step_completed hstep
    have hiff : t.ShowsLast ↔ result.or s.last.image = (s.last.completed result).image := by
      rw [ShowsLast,hview,hlast,← hshown]
      exact ⟨fun hall => hall rfl,fun heq _ => heq⟩
    rw [hiff]
    -- a failed download changes nothing, a successful one only what its own binding shows
    cases hbefore : s.last <;> cases result <;>
      simp [OfLast,Binding.completed,Binding.image,hbefore,eq_comm]

end Avatar

/-- In a run of one avatar the image shown with no download pending is always the one of the
last binding exactly if every download that brings an image belongs to the last binding then. -/
theorem avatar_of_last_binding (app : Bundle Img Url) {view : AvatarView Img Url}
    (hnew : view.imageView = UIImageView.empty) {es : List (AvatarEvent Img)} {s : Avatar Img Url}
    (run : (avatar app view).exec (avatar app view).start es = some s) :
    (avatar app view).Throughout Avatar.ShowsLast (avatar app view).start es ↔
      (avatar app view).Along Avatar.OfLast (avatar app view).start es := by
  have htracks : (avatar app view).start.Tracks :=
    ⟨fun hlive => absurd (congrArg UIImageView.live hnew) hlive,fun _ h => by simp [avatar] at h⟩
  have hshows : (avatar app view).start.ShowsLast := fun _ => congrArg UIImageView.image hnew
  exact Machine.throughout_iff_along (I := Avatar.Tracks) (fun _ _ _ h hstep => h.step hstep)
    (fun _ _ _ h hs hstep => Avatar.showsLast_step h hs hstep) htracks hshows run

/-- Images and URLs named by strings, with every string a URL. -/
def bundle : Bundle String String := ⟨some,some⟩

def newCell : AvatarView String String := .cell ⟨none,⟨UIImageView.empty,true⟩,""⟩

def anaContact : Contact := ⟨some "u1",some "Ana",some "ana.jpeg"⟩

def biaContact : Contact := ⟨some "u2",some "Bia",none⟩

/-- The cell is reused for Bia, who has no photo, while Ana's is downloading. -/
theorem avatar_of_previous_contact :
    ∃ s, (avatar bundle newCell).exec (avatar bundle newCell).start
        [.call (.setupView anaContact),.call (.setupView biaContact),.completed (some "ana.jpeg")] =
        some s ∧ s.view.imageView.live = none ∧ s.last = .assigned (some "imagem-perfil") ∧
      s.view.imageView.image = some "ana.jpeg" ∧ ¬ s.ShowsLast := by
  refine ⟨_,rfl,rfl,rfl,rfl,fun h => ?_⟩
  exact absurd (h rfl) (by decide)

theorem avatar_of_last_binding_ana :
    (avatar bundle newCell).Throughout Avatar.ShowsLast (avatar bundle newCell).start
      [.call (.setupView biaContact),.call (.setupView anaContact),.completed (some "ana.jpeg")] := by
  refine (@avatar_of_last_binding String String bundle newCell rfl
    [.call (.setupView biaContact),.call (.setupView anaContact),.completed (some "ana.jpeg")] _
    rfl).mpr ?_
  refine (Machine.along_cons rfl).mpr ⟨trivial,(Machine.along_cons rfl).mpr ⟨trivial,?_⟩⟩
  exact (Machine.along_cons rfl).mpr ⟨.inl ⟨"ana.jpeg",rfl⟩,Machine.along_nil _⟩

end MessageApp
