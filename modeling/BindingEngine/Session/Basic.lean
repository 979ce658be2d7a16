import BindingEngine.DeepLink.Router
import BindingEngine.Navigation.Navigator
import BindingEngine.Session.Platform

namespace BindingEngine

structure Pending where
  origin : NodeId
  onSuccess : List Action
  onError : List Action
  onFinish : List Action

structure Session (σ : Type) where
  platform : Platform σ
  host : σ
  engine : Engine := {}
  navigator : Navigator := {}
  router : Router := {}
  pending : Table Nat Pending := []
  nextRequest : Nat := 0

-- A value handed over to a screen, to be put at the end of a path.
abbrev Handoff := Option (Path × Value)

inductive Move where
  | openUrl (url : String)
  | openNative (screen : NativeScreen)
  | present (how : Presentation) (destination : Destination)
  | back (how : Return String)

namespace Session

variable {σ : Type}

abbrev Step (σ : Type) := Except Error Unit × Session σ

def report (s : Session σ) (reports : List Report) : Session σ :=
  { s with engine := s.engine.report reports }

def resolver (s : Session σ) (origin : NodeId) (implicit : List Context) : Resolver :=
  (s.engine.scope origin implicit).resolve

def registerDeepLink (s : Session σ) (route screen : String) : Step σ :=
  match s.router.insert route screen with
  | (router, .ok _) => (.ok (), { s with router })
  | (router, .error e) => (.error (.ofPattern e), { s with router })

def dismiss (s : Session σ) (roots : List NodeId) : Session σ :=
  roots.foldl (fun s root =>
    { s with
      host := s.platform.dismissScreen s.host root
      engine := (s.engine.destroy root).2 }) s

def handOver (s : Session σ) (root : NodeId) : Handoff → Step σ
  | none => (.ok (), s)
  | some (path, v) =>
    let (r, engine) := s.engine.handOver root path v
    (r, { s with engine })

def build (s : Session σ) (root : NodeId) (destination : Destination) : Step σ :=
  let (r, engine, host) := s.platform.buildScreen s.host s.engine root destination
  (r.mapError Error.ofPlatform, { s with engine, host })

def prepare (s : Session σ) (root : NodeId) (destination : Destination) (handoff : Handoff) :
    Step σ :=
  match s.handOver root handoff with
  | (.error e, s) => (.error e, s)
  | (.ok (), s) => s.build root destination

-- Creates the root of a screen and has the screen built. If that fails nothing of it is left in the
-- tree.
def present (s : Session σ) (destination : Destination) (handoff : Handoff) :
    Except Error Screen × Session σ :=
  let (root, engine) := s.engine.createRoot
  match { s with engine }.prepare root destination handoff with
  | (.error e, s) => (.error e, { s with engine := (s.engine.destroy root).2 })
  | (.ok (), s) =>
    (.ok ⟨destination.url?, destination.identifier?, root⟩,
      s.report [.presented root destination.url?])

def reveal (s : Session σ) (removed : List NodeId) (handoff : Handoff) : Step σ :=
  if removed.isEmpty then (.ok (), s)
  else
    let s := s.dismiss removed
    match s.navigator.current? with
    | none => (.ok (), s)
    | some screen => s.handOver screen.root handoff

def display (s : Session σ) (screen : Screen) : Presentation → Session σ
  | .resetApplication controller =>
    let (removed, navigator) := s.navigator.resetApplication screen controller
    { s with navigator }.dismiss removed
  | .resetStack =>
    let (removed, navigator) := s.navigator.resetStack screen
    { s with navigator }.dismiss removed
  | .pushStack controller => { s with navigator := s.navigator.pushStack screen controller }
  | .pushView => { s with navigator := s.navigator.pushView screen }

def destination? (s : Session σ) (route : Route) (resolve : Resolver) :
    Option Destination × List Report :=
  let found := route.destination? resolve s.engine.baseUrl
  let reports := match route with
    | .screen _ => []
    | .remote r =>
      let body := match r.request.bind (·.body) with
        | some d => d.reports resolve
        | none => []
      r.url.reports resolve ++ if found.isSome then body else []
  (found, reports)

def move? (s : Session σ) (resolve : Resolver) : Navigation → Option Move × List Report
  | .openUrl url =>
    let reports := url.reports resolve
    match url.evaluate resolve with
    | none => (none, reports ++ [.noExternalUrl])
    | some url => (some (.openUrl url), reports)
  | .openNative route data reset =>
    let reports := route.reports resolve
    match route.evaluate resolve with
    | none => (none, reports ++ [.noNativeRoute])
    | some route =>
      match s.router.lookup? route with
      | none => (none, reports ++ [.unknownNativeRoute route])
      -- the data of the action goes before the parameters of the route
      | some (args, screen) => (some (.openNative ⟨screen, Table.extend args data, reset⟩), reports)
  | .present how route _ =>
    match s.destination? route resolve with
    | (none, reports) => (none, reports ++ [.noRouteUrl])
    | (some destination, reports) => (some (.present how destination), reports)
  | .back .stack _ => (some (.back .stack), [])
  | .back .view _ => (some (.back .view), [])
  | .back (.toView target) _ =>
    let reports := target.reports resolve
    match target.evaluate resolve with
    | none => (none, reports ++ [.noReturnTarget])
    | some target => (some (.back (.toView target)), reports)

def back (s : Session σ) (how : Return String) (handoff : Handoff) : Step σ :=
  let note (s : Session σ) : Session σ :=
    if s.navigator.popsLastStack then s.report [.lastStack] else s
  match how with
  | .stack =>
    let s := note s
    let (removed, navigator) := s.navigator.popStack
    { s with navigator }.reveal removed handoff
  | .view =>
    let s := if s.navigator.hasViewBelow || s.navigator.presented.isEmpty then s else note s
    let (removed, navigator) := s.navigator.popView
    { s with navigator }.reveal removed handoff
  | .toView target =>
    match s.navigator.popToView target (Url.absolute s.engine.baseUrl target) with
    | none => (.ok (), s.report [.unknownReturnTarget target])
    | some (removed, navigator) => { s with navigator }.reveal removed handoff

def perform (s : Session σ) (handoff : Handoff) : Move → Step σ
  | .openUrl url =>
    let s := s.report [.openingUrl url]
    let (r, host) := s.platform.openUrl s.host url
    (r.mapError Error.ofPlatform, { s with host })
  | .openNative screen =>
    let s := s.report [.openingNative screen.screen]
    let s :=
      if screen.resetApplication then
        let (removed, navigator) := s.navigator.clear
        { s with navigator }.dismiss removed
      else s
    let (r, host) := s.platform.openNative s.host screen
    (r.mapError Error.ofPlatform, { s with host })
  | .present how destination =>
    match s.present destination handoff with
    | (.error e, s) => (.error e, s)
    | (.ok screen, s) => (.ok (), s.display screen how)
  | .back how => s.back how handoff

-- Evaluates a navigation as seen from its origin and carries it out. The value to be handed over is
-- evaluated first, since the origin may be gone afterwards.
def navigate (s : Session σ) (n : Navigation) (origin : NodeId) (implicit : List Context) : Step σ :=
  let resolve := s.resolver origin implicit
  let handoff : Handoff := n.context?.map fun c => (c.path.getD [], c.value.evaluate resolve)
  let s := s.report ((n.context?.map fun c => c.value.reports resolve).getD [])
  match s.move? resolve n with
  | (none, reports) => (.ok (), s.report reports)
  | (some move, reports) => (s.report reports).perform handoff move

-- Presents the first screen in place of everything on display. The route sees the global context
-- only.
def launch (s : Session σ) (route : Route) : Except Error NodeId × Session σ :=
  let resolve : Resolver := fun id => if id = globalId then some s.engine.global else none
  match s.destination? route resolve with
  | (none, reports) => (.error .noLaunchUrl, s.report reports)
  | (some destination, reports) =>
    match (s.report reports).present destination none with
    | (.error e, s) => (.error e, s)
    | (.ok screen, s) => (.ok screen.root, s.display screen (.resetApplication none))

end Session

end BindingEngine
