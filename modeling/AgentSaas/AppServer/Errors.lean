/-! The errors that an installation answers with. Only their code and message matter here. -/

namespace AgentSaas.AppServer

structure KyAppError where
  code : String
  message : String
  deriving DecidableEq

def unauthorized (message : String) : KyAppError := ⟨"unauthorized", message⟩

def forbidden (message : String) : KyAppError := ⟨"forbidden", message⟩

def invalidInput (message : String) : KyAppError := ⟨"invalid_input", message⟩

end AgentSaas.AppServer
