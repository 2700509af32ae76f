/-!
Screens of the client and the zones that can hold the focus.
-/

namespace HandheldUI

inductive Screen where
  | main | register | registerHost | stream | waking | reconnecting
  | settings | messages | profile | controller
  deriving DecidableEq, Repr

/-- A region that owns the input. -/
inductive Zone where
  | sidebar | main | settings | profile | controller | overlay
  deriving DecidableEq, Repr

namespace Screen

def all : List Screen :=
  [main, register, registerHost, stream, waking, reconnecting, settings, messages, profile,
    controller]

def name : Screen → String
  | main => "main"
  | register => "register"
  | registerHost => "register-host"
  | stream => "stream"
  | waking => "waking"
  | reconnecting => "reconnecting"
  | settings => "settings"
  | messages => "messages"
  | profile => "profile"
  | controller => "controller"

/-- The screens that the sidebar leads to, from the top icon down. -/
def inSidebar : List Screen := [main, settings, controller, profile]

/-- The zone that holds the focus while it is in the content of a screen. -/
def content : Screen → Zone
  | settings => .settings
  | profile => .profile
  | controller => .controller
  | _ => .main

end Screen

namespace Zone

def all : List Zone := [sidebar, main, settings, profile, controller, overlay]

def name : Zone → String
  | sidebar => "nav-bar"
  | main => "main-content"
  | settings => "settings-items"
  | profile => "profile-cards"
  | controller => "controller-content"
  | overlay => "modal"

end Zone

end HandheldUI
