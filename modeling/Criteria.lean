import Criteria.Document
import Criteria.Engine
import Criteria.Rule.Cursor
import Criteria.Proofs.Assembly.Account
import Criteria.Proofs.Assembly.Infix
import Criteria.Proofs.Assembly.Outcome
import Criteria.Proofs.Assembly.Parentheses
import Criteria.Proofs.Assembly.Reload
import Criteria.Proofs.Attribute.Readings
import Criteria.Proofs.Cache.Sharing
import Criteria.Proofs.Document.Consistency
import Criteria.Proofs.Document.Nesting
import Criteria.Proofs.Engine.Combination
import Criteria.Proofs.Engine.History
import Criteria.Proofs.Engine.Payload
import Criteria.Proofs.Evaluation.Duality
import Criteria.Proofs.Evaluation.Growth
import Criteria.Proofs.Rule.Cursor
import Criteria.Proofs.Token.Spacing
