import DeviceDescription.CharacterEncoding
import DeviceDescription.Configuration
import DeviceDescription.ConfigurationError
import DeviceDescription.ConfigurationLayer
import DeviceDescription.ConfigurationReader
import DeviceDescription.Description
import DeviceDescription.DescriptionError
import DeviceDescription.Device
import DeviceDescription.DocumentContext
import DeviceDescription.DocumentText
import DeviceDescription.DoubleText
import DeviceDescription.Field
import DeviceDescription.HostAddress
import DeviceDescription.Icon
import DeviceDescription.InvisibleCharacter
import DeviceDescription.Lease
import DeviceDescription.Namespaces
import DeviceDescription.Numeral
import DeviceDescription.OwnedTree
import DeviceDescription.PathStep
import DeviceDescription.PercentEncoding
import DeviceDescription.PlacedDevice
import DeviceDescription.QuotedText
import DeviceDescription.RootDevice
import DeviceDescription.SchemaPath
import DeviceDescription.Service
import DeviceDescription.Text
import DeviceDescription.Url
import DeviceDescription.UrlPath
import DeviceDescription.UrlReference
import DeviceDescription.XmlDocument
import DeviceDescription.XmlEntity
import DeviceDescription.XmlName
import DeviceDescription.XmlTag
import DeviceDescription.XmlTree
import DeviceDescription.YamlDocument
import DeviceDescription.YamlScalar
import DeviceDescription.YamlText
import DeviceDescription.YamlToken
import DeviceDescription.YamlValue
import DeviceDescription.Proofs.SchemaLookup
import DeviceDescription.Proofs.FieldTables
import DeviceDescription.Proofs.TreeRefinement
import DeviceDescription.Proofs.AddressText
import DeviceDescription.Proofs.HostText
import DeviceDescription.Proofs.AuthorityText
import DeviceDescription.Proofs.ComposedUrl
import DeviceDescription.Proofs.ReferenceResolution
import DeviceDescription.Proofs.FirstFault
import DeviceDescription.Proofs.OrderedChecks
import DeviceDescription.Proofs.HostedUrls
import DeviceDescription.Proofs.SharedBases
import DeviceDescription.Proofs.EntryLookup
import DeviceDescription.Proofs.SettingOverrides
import DeviceDescription.Proofs.SchemaAgreement
import DeviceDescription.Proofs.VendorExtensions
import DeviceDescription.Proofs.ObjectGraph
import DeviceDescription.Proofs.Ownership
import DeviceDescription.Proofs.FilledFields
import DeviceDescription.Proofs.StructuralFaults
import DeviceDescription.Proofs.PathText
import DeviceDescription.Proofs.DirectoryReferences
import DeviceDescription.Proofs.EmptiedElements
import DeviceDescription.Proofs.ToleratedFaults
import DeviceDescription.Proofs.PathAgreement
import DeviceDescription.Proofs.NamespaceRenaming
import DeviceDescription.Proofs.LeaseHistory
import DeviceDescription.Proofs.FetchedText
import DeviceDescription.Proofs.ReadValues
import DeviceDescription.Proofs.LayeredSettings
import DeviceDescription.Proofs.LeaseAccuracy
import DeviceDescription.Proofs.PathComposition
import DeviceDescription.Proofs.CountedChildren
import DeviceDescription.Proofs.DesignatedCounts
import DeviceDescription.Proofs.WrittenUrls
import DeviceDescription.Proofs.ExtendedBases
import DeviceDescription.Proofs.FailingSteps
import DeviceDescription.Proofs.StepGrammar
import DeviceDescription.Proofs.FieldPolicies
import DeviceDescription.Proofs.TableRuns
import DeviceDescription.Proofs.ServerRoots
import DeviceDescription.Proofs.RepeatedResolution
import DeviceDescription.Proofs.PreorderTraversal
import DeviceDescription.Proofs.TreeSearches
import DeviceDescription.Proofs.NumberTexts
import DeviceDescription.Proofs.MergedValues
import DeviceDescription.Proofs.EnvironmentOrder
